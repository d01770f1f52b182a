import Uartbus.Model.TcpRpcClient

/-!
# The streamer endpoint

A connection to the RPC server that is opened when it is needed, and a thread that asks it for one
packet after another (rpc/streamer.rs).

One move of a call is an atomic load or store of `run`, one critical section of the working
connection or of the handle of the thread, or one call of the connection.  Connections are numbered
in the order they are opened.  The environment chooses which connections can be opened and what
they return.  A closed connection does not keep a call waiting: it returns what had arrived before,
or an error (rpc/client.rs:82-113).

The load of `run` that only decides whether a failed opening is logged is left out.
-/

set_option autoImplicit false

namespace Uartbus.Model

open Lib

/-- SOURCE: rpc/streamer.rs:22-27 -/
structure StreamerShared where
  working : Option ℕ
  run : Bool
  /-- The handle of the streaming thread. -/
  streamer : Option ℕ
  /-- `start_streaming` holds the lock of the handle. -/
  streamerLocked : Bool
  /-- How many connections have been opened, and which of them were closed: kept by no variable of
  the source, as are the numbers of the threads below. -/
  opened : ℕ
  closed : List ℕ
  /-- How many threads have been started, and those of them that have not begun. -/
  threads : ℕ
  spawned : List ℕ
  finished : List ℕ
  deriving DecidableEq, Repr

/-- SOURCE: rpc/streamer.rs:35-44 -/
def StreamerShared.new : StreamerShared where
  working := none
  run := false
  streamer := none
  streamerLocked := false
  opened := 0
  closed := []
  threads := 0
  spawned := []
  finished := []

/-- What the environment answers to a move. -/
structure StreamerChoice where
  /-- The error of the factory, if it fails. -/
  factory : Option String
  /-- What `get_next_packet` returns; none while it waits. -/
  receive : Option (Except String Bytes)
  send : Except String Unit
  /-- The error of starting the thread, if it fails. -/
  spawn : Option String

inductive StreamerOp where
  | sendPacket (data : Bytes)
  | cleanupConnection
  | startStreaming
  /-- The streaming thread. -/
  | streamThread
  | join
  | close
  deriving DecidableEq, Repr

/-- What a call does next. -/
inductive StreamerLocal where
  | sendConnecting (data : Bytes)
  | sending (connection : ℕ) (data : Bytes)
  | sendEnded (result : Except String Unit)
  | cleaning
  | cleanEnded
  | startChecking
  | startConnecting
  | startRunning
  | startSpawning
  | startEnded (result : Except String Unit)
  /-- The thread has not been started. -/
  | threadWaiting
  /-- The head of the loop. -/
  | loopChecking (thread : ℕ)
  | loopConnecting (thread : ℕ)
  | loopReceiving (thread : ℕ) (connection : ℕ)
  /-- `get_next_packet` has failed, and `run` is looked at. -/
  | loopFailed (thread : ℕ)
  | loopCleaning (thread : ℕ)
  /-- The loop has ended. -/
  | loopLeft (thread : ℕ)
  | threadEnded
  | joinTaking
  | joining (thread : ℕ)
  | joinEnded
  | closing
  | closingConnection
  | closeEnded
  deriving DecidableEq, Repr

inductive StreamerEvent where
  | installed (connection : ℕ)
  | closedConnection (connection : ℕ)
  | delivered (packet : Bytes)
  | failed (text : String)
  deriving DecidableEq, Repr

/-- SOURCE: rpc/streamer.rs:82-87 -/
def alreadyRunning : String := "Packet streaming already running"

/-- The critical section: the working connection, or a new one.
SOURCE: rpc/streamer.rs:46-63 -/
def getApi (choice : StreamerChoice) (s : StreamerShared) :
    Except String ℕ × StreamerShared × List StreamerEvent :=
  match s.working, choice.factory with
  | some connection, _ => (.ok connection, s, [])
  | none, some text => (.error text, s, [.failed text])
  | none, none =>
    (.ok s.opened, { s with working := some s.opened, opened := s.opened + 1 },
      [.installed s.opened])

/-- SOURCE: rpc/streamer.rs:69-74 -/
def cleanupConnection (s : StreamerShared) : StreamerShared × List StreamerEvent :=
  match s.working with
  | some connection =>
    ({ s with working := none, closed := connection :: s.closed },
      [.closedConnection connection])
  | none => (s, [])

/-- The call of `get_next_packet`; it waits only on a connection that is open. -/
def nextPacket (choice : StreamerChoice) (s : StreamerShared) (connection : ℕ) :
    Option (Except String Bytes) :=
  if connection ∈ s.closed then some (choice.receive.getD (.error connectionClosed))
  else choice.receive

/-- One move of a call.
SOURCE: rpc/streamer.rs:65-147 -/
def streamerNext (choice : StreamerChoice) (s : StreamerShared) :
    StreamerLocal → Option (StreamerShared × StreamerLocal × List StreamerEvent)
  | .sendConnecting data =>
    match getApi choice s with
    | (.ok connection, s', events) => some (s', .sending connection data, events)
    | (.error text, s', events) => some (s', .sendEnded (.error text), events)
  | .sending _ _ => some (s, .sendEnded choice.send, [])
  | .cleaning =>
    let r := cleanupConnection s
    some (r.1, .cleanEnded, r.2)
  | .startChecking =>
    if s.streamerLocked then none
    else if s.streamer.isSome then some (s, .startEnded (.error alreadyRunning), [])
    else some ({ s with streamerLocked := true }, .startConnecting, [])
  | .startConnecting =>
    match getApi choice s with
    | (.ok _, s', events) => some (s', .startRunning, events)
    | (.error text, s', events) =>
      some ({ s' with streamerLocked := false }, .startEnded (.error text), events)
  | .startRunning => some ({ s with run := true }, .startSpawning, [])
  | .startSpawning =>
    match choice.spawn with
    | none =>
      some ({ s with
          streamer := some s.threads
          threads := s.threads + 1
          spawned := s.spawned ++ [s.threads]
          streamerLocked := false }, .startEnded (.ok ()), [])
    | some text => some ({ s with streamerLocked := false }, .startEnded (.error text), [])
  | .threadWaiting =>
    match s.spawned with
    | [] => none
    | thread :: spawned => some ({ s with spawned := spawned }, .loopChecking thread, [])
  | .loopChecking thread =>
    if s.run then some (s, .loopConnecting thread, []) else some (s, .loopLeft thread, [])
  | .loopConnecting thread =>
    match getApi choice s with
    | (.ok connection, s', events) => some (s', .loopReceiving thread connection, events)
    | (.error _, s', events) => some (s', .loopLeft thread, events)
  | .loopReceiving thread connection =>
    (nextPacket choice s connection).map fun result =>
      match result with
      | .ok packet => (s, .loopChecking thread, [.delivered packet])
      | .error text => (s, .loopFailed thread, [.failed text])
  | .loopFailed thread =>
    if s.run then some (s, .loopCleaning thread, []) else some (s, .loopLeft thread, [])
  | .loopCleaning thread =>
    let r := cleanupConnection s
    some (r.1, .loopChecking thread, r.2)
  | .loopLeft thread =>
    some ({ s with run := false, finished := thread :: s.finished }, .threadEnded, [])
  | .joinTaking =>
    if s.streamerLocked then none
    else
      match s.streamer with
      | none => some (s, .joinEnded, [])
      | some thread => some ({ s with streamer := none }, .joining thread, [])
  | .joining thread => if thread ∈ s.finished then some (s, .joinEnded, []) else none
  | .closing => some ({ s with run := false }, .closingConnection, [])
  | .closingConnection =>
    let r := cleanupConnection s
    some (r.1, .closeEnded, r.2)
  | .sendEnded _ | .cleanEnded | .startEnded _ | .threadEnded | .joinEnded | .closeEnded => none

def streamerThreads :
    Threads StreamerOp StreamerChoice StreamerShared StreamerLocal StreamerEvent where
  enter
    | .sendPacket data => .sendConnecting data
    | .cleanupConnection => .cleaning
    | .startStreaming => .startChecking
    | .streamThread => .threadWaiting
    | .join => .joinTaking
    | .close => .closing
  next := streamerNext

abbrev StreamerPool := Pool StreamerOp StreamerShared StreamerLocal StreamerEvent

end Uartbus.Model
