import Uartbus.Lib.Threads
import Uartbus.Model.Framing

/-!
# The connector of the gateway

The stream to the gateway, with its two directions and the process that provides it, is opened
again when it breaks (connector.rs).  Both directions find out about a break on their own and
report it with the generation of the stream they used.

One move of a call is an atomic load or store of `run`, one critical section of the state of the
stream, one read, or the start of a thread.  The environment chooses which reads, writes and opens
fail.  The generation is a `u64` that counts the streams; it is a natural number here.
-/

set_option autoImplicit false

namespace Uartbus.Model

open Lib

/-- SOURCE: connector.rs:54-60 -/
inductive OnStreamClosed where
  | reconnect
  | call
  deriving DecidableEq, Repr

/-- The state of the stream.  A reader that has not been taken is there; a child process is named
by the generation of its stream.  The `u64` of the generation is taken not to overflow.
SOURCE: connector.rs:62-67 -/
structure IoState where
  generation : ℕ
  reader : Bool
  child : Option ℕ
  deriving DecidableEq, Repr

/-- SOURCE: connector.rs:69-76 -/
structure ConnectorShared where
  io : IoState
  run : Bool
  /-- The receive threads that have been started and have not begun yet. -/
  spawned : ℕ
  deriving DecidableEq, Repr

/-- The connector with its first stream.
SOURCE: connector.rs:84-106 -/
def ConnectorShared.new (hasChild : Bool) : ConnectorShared where
  io := { generation := 0, reader := true, child := if hasChild then some 0 else none }
  run := false
  spawned := 0

/-- What `write_all` and `flush` come to; a failed write has written a part. -/
inductive WriteOutcome where
  | ok
  | writeFails (written : ℕ) (text : String)
  | flushFails (text : String)
  deriving DecidableEq, Repr

/-- What `read` returns. -/
inductive StreamRead where
  | ok (bytes : Bytes)
  | interrupted
  | failed
  deriving DecidableEq, Repr

/-- What the environment answers to a move. -/
structure ConnectorChoice where
  write : WriteOutcome
  /-- The factory opens a stream, with or without a child process. -/
  factory : Option Bool
  read : StreamRead
  /-- The thread can be started. -/
  spawns : Bool
  deriving DecidableEq, Repr

inductive ConnectorOp where
  | sendPacket (data : Bytes)
  | startListen
  /-- The thread of `receive_loop`. -/
  | receiveLoop
  | close
  deriving DecidableEq, Repr

/-- What a call does next. -/
inductive ConnectorLocal where
  /-- The head of the loop of `send_packet`. -/
  | sendChecking (framed : Bytes)
  | sendWriting (framed : Bytes)
  | sendReporting (framed : Bytes) (generation : ℕ) (text : String)
  | sendEnded (result : Except String Unit)
  | listenStarting
  | listenSpawning
  | listenEnded (started : Bool)
  /-- The thread has not been started. -/
  | loopWaiting (cutter : FramedPacketCutter)
  | loopChecking (cutter : FramedPacketCutter)
  | loopTaking (cutter : FramedPacketCutter)
  | loopReading (cutter : FramedPacketCutter) (generation : ℕ)
  /-- The stream is at its end, and `run` is looked at once more. -/
  | loopBroken (cutter : FramedPacketCutter) (generation : ℕ)
  | loopReporting (cutter : FramedPacketCutter) (generation : ℕ)
  | loopEnded
  | closing
  /-- `run` is false, and the child is taken next. -/
  | closingChild
  | closeEnded
  deriving DecidableEq, Repr

inductive ConnectorEvent where
  /-- What was given to the writer of a generation, and whether it went well. -/
  | wrote (generation : ℕ) (bytes : Bytes) (ok : Bool)
  /-- A report for a generation that is not the present one. -/
  | stale (generation : ℕ)
  | called
  | killed (child : ℕ)
  /-- The stream of the generation has been replaced. -/
  | opened (generation : ℕ)
  | openFailed (generation : ℕ)
  | tookReader (generation : ℕ)
  | noReader (generation : ℕ)
  | dispatched (packet : Bytes)
  | refused
  /-- `close` has stored `run`. -/
  | stopped
  /-- `close` has taken the child. -/
  | childTaken
  deriving DecidableEq, Repr

/-- SOURCE: connector.rs:230-233 -/
def notRunning : String :=
  "This UartbusPacketConnector is not running, can't send packet to the network. " ++
    "Call start_listen() to run this instance."

/-- The events of a child that is killed. -/
def killedChild (io : IoState) : List ConnectorEvent := io.child.toList.map .killed

/-- The critical section, with whether the connector can continue.
SOURCE: connector.rs:130-176 -/
def manageClosedConnection (onClosed : OnStreamClosed) (factory : Option Bool)
    (s : ConnectorShared) (generation : ℕ) : ConnectorShared × Bool × List ConnectorEvent :=
  if s.io.generation ≠ generation then (s, true, [.stale generation])
  else
    match onClosed, factory with
    | .call, _ => (s, false, [.called])
    | .reconnect, some hasChild =>
      ({ s with io :=
          { generation := generation + 1
            reader := true
            child := if hasChild then some (generation + 1) else none } },
        true, killedChild s.io ++ [.opened generation])
    | .reconnect, none =>
      ({ s with io := { s.io with child := none } }, false,
        killedChild s.io ++ [.openFailed generation])

/-- The critical section in which `send_packet` writes.
SOURCE: connector.rs:236-255 -/
def sendWrite (outcome : WriteOutcome) (generation : ℕ) (framed : Bytes) :
    ConnectorLocal × List ConnectorEvent :=
  match outcome with
  | .ok => (.sendEnded (.ok ()), [.wrote generation framed true])
  | .writeFails n text =>
    (.sendReporting framed generation text, [.wrote generation (framed.take n) false])
  | .flushFails text =>
    (.sendReporting framed generation text, [.wrote generation framed false])

/-- The reads of one stream.
SOURCE: connector.rs:195-202 -/
def loopRead (cutter : FramedPacketCutter) (generation : ℕ) :
    StreamRead → ConnectorLocal × List ConnectorEvent
  | .ok [] | .failed => (.loopBroken cutter generation, [])
  | .ok (b :: bytes) =>
    let r := cutter.feedBytes (b :: bytes)
    (.loopReading r.1 generation, r.2.map .dispatched)
  | .interrupted => (.loopReading cutter generation, [])

/-- One move of a call.
SOURCE: connector.rs:178-280 -/
def connectorNext (onClosed : OnStreamClosed) (choice : ConnectorChoice) (s : ConnectorShared) :
    ConnectorLocal → Option (ConnectorShared × ConnectorLocal × List ConnectorEvent)
  | .sendChecking framed =>
    if s.run then some (s, .sendWriting framed, [])
    else some (s, .sendEnded (.error notRunning), [.refused])
  | .sendWriting framed => some (s, sendWrite choice.write s.io.generation framed)
  | .sendReporting framed generation text =>
    let r := manageClosedConnection onClosed choice.factory s generation
    some (r.1, if r.2.1 then .sendChecking framed else .sendEnded (.error text), r.2.2)
  | .listenStarting =>
    if s.run then some (s, .listenEnded false, [.refused])
    else some ({ s with run := true }, .listenSpawning, [])
  | .listenSpawning =>
    if choice.spawns then some ({ s with spawned := s.spawned + 1 }, .listenEnded true, [])
    else some (s, .listenEnded false, [])
  | .loopWaiting cutter =>
    if s.spawned = 0 then none
    else some ({ s with spawned := s.spawned - 1 }, .loopChecking cutter, [])
  | .loopChecking cutter =>
    if s.run then some (s, .loopTaking cutter, []) else some (s, .loopEnded, [])
  | .loopTaking cutter =>
    if s.io.reader then
      some ({ s with io := { s.io with reader := false } },
        .loopReading cutter.clear s.io.generation, [.tookReader s.io.generation])
    else some (s, .loopChecking cutter, [.noReader s.io.generation])
  | .loopReading cutter generation => some (s, loopRead cutter generation choice.read)
  | .loopBroken cutter generation =>
    if s.run then some (s, .loopReporting cutter generation, []) else some (s, .loopEnded, [])
  | .loopReporting cutter generation =>
    let r := manageClosedConnection onClosed choice.factory s generation
    some (r.1, if r.2.1 then .loopChecking cutter else .loopEnded, r.2.2)
  | .closing => some ({ s with run := false }, .closingChild, [.stopped])
  | .closingChild =>
    some ({ s with io := { s.io with child := none } }, .closeEnded,
      killedChild s.io ++ [.childTaken])
  | .sendEnded _ | .listenEnded _ | .loopEnded | .closeEnded => none

/-- SOURCE: connector.rs:226, 178-180 -/
def connectorThreads (escape : UInt8) (onClosed : OnStreamClosed) :
    Threads ConnectorOp ConnectorChoice ConnectorShared ConnectorLocal ConnectorEvent where
  enter
    | .sendPacket data => .sendChecking (frameBytes data escape)
    | .startListen => .listenStarting
    | .receiveLoop => .loopWaiting (FramedPacketCutter.new escape)
    | .close => .closing
  next := connectorNext onClosed

abbrev ConnectorPool := Pool ConnectorOp ConnectorShared ConnectorLocal ConnectorEvent

end Uartbus.Model
