import Uartbus.Model.Server

/-!
# The RPC client

Any number of calls wait for their responses on one connection; a reader thread gives each response
to the call with its number (rpc/client.rs).

One move of a call is an atomic increment, one critical section, one write or one receive; so is a
move of the reader.  The environment chooses the lines that the reader gets and which writes fail.
-/

set_option autoImplicit false

namespace Uartbus.Model

open Lib

/-- SOURCE: rpc/client.rs:30-35 -/
def responseTid (response : Value) : Option UInt64 :=
  match response.get "t" with
  | none => none
  | some (.string s) => parseU64 s
  | some other => other.asU64

/-- What the reader does next. -/
inductive ReaderLocal where
  | reading
  /-- The waiter of the response is looked up and removed, -/
  | removing (response : Value)
  /-- and the response is sent to it. -/
  | sending (response : Value) (channel : ℕ)
  /-- The loop has ended. -/
  | ending
  | terminated

/-- The channel of a call. -/
structure CallChannel where
  /-- The number of the call that has made the channel. -/
  tid : UInt64
  messages : List Value

/-- SOURCE: rpc/client.rs:17-28 -/
structure ClientShared where
  nextTid : UInt64
  channels : List CallChannel
  /-- The senders of the channels, by the numbers of the calls. -/
  waiting : List (UInt64 × ℕ)
  closed : Bool
  reader : ReaderLocal

/-- SOURCE: rpc/client.rs:43-46, 75-79 -/
def ClientShared.new : ClientShared where
  nextTid := 0
  channels := []
  waiting := []
  closed := false
  reader := .reading

/-- A call of a function of the server. -/
structure ClientCall where
  function : String
  params : Value

/-- What a call does next. -/
inductive CallLocal where
  | starting (call : ClientCall)
  | inserting (call : ClientCall) (tid : UInt64) (channel : ℕ)
  | writing (call : ClientCall) (tid : UInt64) (channel : ℕ)
  /-- The write has failed. -/
  | removing (tid : UInt64) (text : String)
  | receiving (tid : UInt64) (channel : ℕ)
  | ended (result : Except String Value)

inductive ClientEvent where
  | numbered (tid : UInt64)
  | refused
  | inserted
  | wrote (line : Value)
  | writeFailed (text : String)
  | received (response : Value)
  /-- The sender of the channel is gone, and nothing is in it. -/
  | disconnected

/-- SOURCE: rpc/client.rs:83 -/
def connectionClosed : String := "RPC connection closed"

/-- SOURCE: rpc/client.rs:95-101 -/
def requestLine (call : ClientCall) (tid : UInt64) : Value :=
  .object (insertField "N" (.string serverNamespace) (insertField "t" (.number (.posInt tid))
    (insertField "f" (.string call.function) (insertField "p" call.params []))))

/-- SOURCE: rpc/client.rs:115-121 -/
def callResult (response : Value) : Except String Value :=
  match (response.get "e").filter fun e => !e.isNull with
  | some error =>
    let kind := ((error.get "type").bind Value.asStr).getD "Error"
    let message := ((error.get "message").bind Value.asStr).getD ""
    .error (kind ++ ": " ++ message)
  | none => .ok ((response.get "r").getD .null)

namespace ClientShared

variable (s : ClientShared)

/-- `waiting.remove`, without what it returns. -/
def removeWaiter (tid : UInt64) : ClientShared :=
  { s with waiting := s.waiting.filter fun w => decide (w.1 ≠ tid) }

/-- `waiting.insert`: a sender with the same number is dropped. -/
def insertWaiter (tid : UInt64) (channel : ℕ) : ClientShared :=
  { s with waiting := (tid, channel) :: (s.removeWaiter tid).waiting }

def findWaiter (tid : UInt64) : Option ℕ :=
  (s.waiting.find? fun w => decide (w.1 = tid)).map Prod.snd

/-- The messages of a channel change. -/
def withMessages (channel : ℕ) (x : CallChannel) (messages : List Value) : ClientShared :=
  { s with channels := s.channels.set channel { x with messages := messages } }

/-- The sender of the channel is in the map, or the reader has it. -/
def hasSender (channel : ℕ) : Bool :=
  s.waiting.any (fun w => decide (w.2 = channel)) ||
    match s.reader with
    | .sending _ channel' => decide (channel' = channel)
    | _ => false

end ClientShared

/-- The channel is empty or has a message; none when the call has to wait.
SOURCE: rpc/client.rs:113 -/
def receiveMove (s : ClientShared) (channel : ℕ) (x : CallChannel) :
    Option (ClientShared × CallLocal × List ClientEvent) :=
  match x.messages with
  | response :: messages =>
    some (s.withMessages channel x messages, .ended (callResult response), [.received response])
  | [] =>
    if s.hasSender channel then none
    else some (s, .ended (.error connectionClosed), [.disconnected])

/-- One move of a call; the failure is the one of the write.
SOURCE: rpc/client.rs:82-122 -/
def callNext (failure : Option String) (s : ClientShared) :
    CallLocal → Option (ClientShared × CallLocal × List ClientEvent)
  | .starting call =>
    some ({ s with
        nextTid := s.nextTid + 1
        channels := s.channels ++ [⟨s.nextTid + 1, []⟩] },
      .inserting call (s.nextTid + 1) s.channels.length, [.numbered (s.nextTid + 1)])
  | .inserting call tid channel =>
    if s.closed then some (s, .ended (.error connectionClosed), [.refused])
    else some (s.insertWaiter tid channel, .writing call tid channel, [.inserted])
  | .writing call tid channel =>
    match failure with
    | none => some (s, .receiving tid channel, [.wrote (requestLine call tid)])
    | some text => some (s, .removing tid text, [.writeFailed text])
  | .removing tid text => some (s.removeWaiter tid, .ended (.error text), [])
  | .receiving _ channel => s.channels[channel]?.bind fun x => receiveMove s channel x
  | .ended _ => none

def clientThreads : Threads ClientCall (Option String) ClientShared CallLocal ClientEvent where
  enter call := .starting call
  next := callNext

/-- The reader gets a line; none is the end of the stream, or a line that is not JSON.
SOURCE: rpc/client.rs:52-56 -/
def readerLine (s : ClientShared) (line : Option Value) : Option ClientShared :=
  match s.reader, line with
  | .reading, some response => some { s with reader := .removing response }
  | .reading, none => some { s with reader := .ending }
  | _, _ => none

/-- One move of the reader.  A response without a waiter is only reported.
SOURCE: rpc/client.rs:58-72 -/
def readerMove (s : ClientShared) : Option ClientShared :=
  match s.reader with
  | .reading | .terminated => none
  | .removing response =>
    match responseTid response with
    | none => some { s with reader := .reading }
    | some tid =>
      match s.findWaiter tid with
      | none => some { s with reader := .reading }
      | some channel => some { s.removeWaiter tid with reader := .sending response channel }
  | .sending response channel =>
    s.channels[channel]?.map fun x =>
      { s.withMessages channel x (x.messages ++ [response]) with reader := .reading }
  | .ending => some { s with closed := true, waiting := [], reader := .terminated }

/-- Who is next. -/
inductive ClientTurn where
  | calls (turn : Turn ClientCall (Option String))
  | line (line : Option Value)
  | reader

abbrev ClientPool := Pool ClientCall ClientShared CallLocal ClientEvent

def clientStep (p : ClientPool) : ClientTurn → Option ClientPool
  | .calls turn => clientThreads.step p turn
  | .line line => (readerLine p.shared line).map fun s => { p with shared := s }
  | .reader => (readerMove p.shared).map fun s => { p with shared := s }

end Uartbus.Model
