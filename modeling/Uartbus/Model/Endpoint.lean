import Mathlib.Data.List.Basic
import Uartbus.Lib.Threads
import Uartbus.Model.Text

/-!
# The endpoint and its sessions

The endpoint distributes the packets of the gateway to the sessions, and the packets of the clients
to the gateway and to the sessions that ask for them (rpc/endpoint.rs).

One move of a call is one critical section of the list of sessions or of a queue, one load or
store of a flag, or one call of the connector, whose result is a choice.  A session is known by its
number in the order of creation.
-/

set_option autoImplicit false

namespace Uartbus.Model

open Lib

/-! ## A session -/

/-- The queue and the settings of one client.
SOURCE: rpc/endpoint.rs:18-29 -/
structure SessionState where
  packets : List Bytes
  closed : Bool
  echoLoopback : Bool
  loopbackSendPackets : Bool
  deriving DecidableEq, Repr

/-- SOURCE: rpc/endpoint.rs:15 -/
def attrLoopbackSendPackets : String := "loopback_send_packets"

/-- SOURCE: rpc/endpoint.rs:16 -/
def attrEchoLoopback : String := "echo_loopback"

/-- SOURCE: rpc/endpoint.rs:93-99 -/
def parseBool (value : String) : Option Bool :=
  let lowered := (trim value.toList).map Char.toLower
  if lowered = "true".toList ∨ lowered = "1".toList then some true
  else if lowered = "false".toList ∨ lowered = "0".toList then some false
  else none

/-- The text of the error when nothing more is received.
SOURCE: rpc/endpoint.rs:48-51, 161-164 -/
def endOfReceive : String := "End of receive."

namespace SessionState

/-- SOURCE: rpc/endpoint.rs:32-38 -/
def put (x : SessionState) (packet : Bytes) : SessionState :=
  if x.closed then x else { x with packets := x.packets ++ [packet] }

/-- None when the call has to wait.
SOURCE: rpc/endpoint.rs:41-55 -/
def take (x : SessionState) : Option (Except String Bytes × SessionState) :=
  match x.packets with
  | packet :: packets => some (.ok packet, { x with packets := packets })
  | [] => if x.closed then some (.error endOfReceive, x) else none

/-- SOURCE: rpc/endpoint.rs:57-60 -/
def close (x : SessionState) : SessionState := { x with closed := true }

/-- SOURCE: rpc/endpoint.rs:62-72 -/
def getAttribute (x : SessionState) (key : String) : Option String :=
  if key = attrLoopbackSendPackets then some (toString x.loopbackSendPackets)
  else if key = attrEchoLoopback then some (toString x.echoLoopback)
  else none

/-- SOURCE: rpc/endpoint.rs:74-91 -/
def setAttribute (x : SessionState) (key value : String) : Except String SessionState :=
  let text := "The given value `" ++ value ++ "` can not be casted to boolean."
  if key = attrLoopbackSendPackets then
    match parseBool value with
    | some set => .ok { x with loopbackSendPackets := set }
    | none => .error text
  else if key = attrEchoLoopback then
    match parseBool value with
    | some set => .ok { x with echoLoopback := set }
    | none => .error text
  else .ok x

end SessionState

/-! ## The endpoint -/

/-- SOURCE: rpc/endpoint.rs:110-116 -/
structure EndpointShared where
  /-- Every session that was created. -/
  created : List SessionState
  /-- The numbers of those in the list of the endpoint. -/
  sessions : List ℕ
  closed : Bool
  defaultEchoLoopback : Bool
  defaultLoopbackSendPackets : Bool
  deriving DecidableEq, Repr

/-- SOURCE: rpc/endpoint.rs:126-137 -/
def EndpointShared.new (defaultEchoLoopback defaultLoopbackSendPackets : Bool) :
    EndpointShared where
  created := []
  sessions := []
  closed := false
  defaultEchoLoopback := defaultEchoLoopback
  defaultLoopbackSendPackets := defaultLoopbackSendPackets

inductive EndpointOp where
  /-- A packet of the gateway is given to the hook. -/
  | packetHook (packet : Bytes)
  | newSession
  | removeSession (id : ℕ)
  | sendPacket (data : Bytes)
  | close
  | takeCall (id : ℕ)
  | closeSession (id : ℕ)
  | setAttribute (id : ℕ) (key value : String)
  deriving DecidableEq, Repr

/-- What a call does next. -/
inductive EndpointLocal where
  /-- The list of sessions is copied for a packet of the gateway, -/
  | copying (packet : Bytes)
  /-- and the packet is put to them. -/
  | putting (packet : Bytes) (sessions : List ℕ)
  /-- The packet is given to the connector. -/
  | sending (data : Bytes)
  | copyingSent (data : Bytes)
  /-- `loopback_send_packets` of the first session is loaded, -/
  | loadingLoopback (data : Bytes) (sessions : List ℕ)
  /-- `echo_loopback` of the session is loaded, -/
  | loadingEcho (data : Bytes) (id : ℕ) (sessions : List ℕ)
  /-- and the packet is put to the session. -/
  | puttingSent (data : Bytes) (id : ℕ) (sessions : List ℕ)
  /-- `new_session` looks whether the endpoint is closed, -/
  | checking
  /-- and inserts the session. -/
  | inserting
  | removing (id : ℕ)
  | taking (id : ℕ)
  | setting (id : ℕ) (key value : String)
  /-- `close` stores the flag, -/
  | marking
  | closingConnector
  /-- empties the list -/
  | emptying
  /-- and closes the sessions; so does `remove_session` with its own. -/
  | closing (sessions : List ℕ)
  /-- A client ends its own receiving. -/
  | closingSession (id : ℕ)
  /-- `new_session` has returned the session. -/
  | opened (id : ℕ)
  | ended
  deriving DecidableEq, Repr

inductive Attribute where
  | loopbackSendPackets
  | echoLoopback
  deriving DecidableEq, Repr

def SessionState.flag (x : SessionState) : Attribute → Bool
  | .loopbackSendPackets => x.loopbackSendPackets
  | .echoLoopback => x.echoLoopback

inductive EndpointEvent where
  | copied (packet : Bytes) (sessions : List ℕ)
  | put (id : ℕ) (packet : Bytes)
  | sent (data : Bytes)
  | sendFailed (data : Bytes)
  | loaded (which : Attribute) (id : ℕ) (value : Bool)
  | created (id : ℕ)
  | refused
  | removed (id : ℕ)
  | took (id : ℕ) (packet : Bytes)
  /-- `take` has returned the error. -/
  | endOfReceive (id : ℕ)
  /-- The attributes of the session are set to these values. -/
  | attributesSet (id : ℕ) (values : Attribute → Bool)
  | notSet (id : ℕ) (text : String)
  | marked
  | emptied (sessions : List ℕ)
  | sessionClosed (id : ℕ)

namespace EndpointShared

/-- One critical section of a session's queue, or one store to a setting of it. -/
def withSession (s : EndpointShared) (id : ℕ) (x : SessionState) : EndpointShared :=
  { s with created := s.created.set id x }

/-- SOURCE: rpc/endpoint.rs:167-181 -/
def insertSession (s : EndpointShared) : EndpointShared :=
  { s with
      created := s.created ++ [⟨[], false, s.defaultEchoLoopback, s.defaultLoopbackSendPackets⟩]
      sessions := s.sessions ++ [s.created.length] }

end EndpointShared

/-- A move of `take`.
SOURCE: rpc/endpoint.rs:41-55 -/
def takeMove (s : EndpointShared) (id : ℕ) (x : SessionState) :
    Option (EndpointShared × EndpointLocal × List EndpointEvent) :=
  match x.take with
  | none => none
  | some (.ok packet, x) => some (s.withSession id x, .ended, [.took id packet])
  | some (.error _, x) => some (s.withSession id x, .ended, [.endOfReceive id])

/-- A move of `set_attribute`.
SOURCE: rpc/endpoint.rs:74-91 -/
def setMove (s : EndpointShared) (id : ℕ) :
    Except String SessionState → EndpointShared × EndpointLocal × List EndpointEvent
  | .ok x => (s.withSession id x, .ended, [.attributesSet id x.flag])
  | .error text => (s, .ended, [.notSet id text])

/-- One move; the choice says whether the connector sends the packet.
SOURCE: rpc/endpoint.rs:139-147, 159-224 -/
def endpointNext (sent : Bool) (s : EndpointShared) :
    EndpointLocal → Option (EndpointShared × EndpointLocal × List EndpointEvent)
  | .copying packet => some (s, .putting packet s.sessions, [.copied packet s.sessions])
  | .putting _ [] => some (s, .ended, [])
  | .putting packet (id :: sessions) =>
    s.created[id]?.map fun x =>
      (s.withSession id (x.put packet), .putting packet sessions, [.put id packet])
  | .sending data =>
    if sent then some (s, .copyingSent data, [.sent data])
    else some (s, .ended, [.sendFailed data])
  | .copyingSent data => some (s, .loadingLoopback data s.sessions, [.copied data s.sessions])
  | .loadingLoopback _ [] => some (s, .ended, [])
  | .loadingLoopback data (id :: sessions) =>
    s.created[id]?.map fun x =>
      (s, if x.loopbackSendPackets then .puttingSent data id sessions
          else .loadingEcho data id sessions,
        [.loaded .loopbackSendPackets id x.loopbackSendPackets])
  | .loadingEcho data id sessions =>
    s.created[id]?.map fun x =>
      (s, if x.echoLoopback then .puttingSent data id sessions
          else .loadingLoopback data sessions,
        [.loaded .echoLoopback id x.echoLoopback])
  | .puttingSent data id sessions =>
    s.created[id]?.map fun x =>
      (s.withSession id (x.put data), .loadingLoopback data sessions, [.put id data])
  | .checking =>
    some (s, if s.closed then .ended else .inserting, if s.closed then [.refused] else [])
  | .inserting =>
    some (s.insertSession, .opened s.created.length, [.created s.created.length])
  | .removing id =>
    s.created[id]?.map fun _ =>
      ({ s with sessions := s.sessions.filter fun i => decide (i ≠ id) }, .closing [id],
        [.removed id])
  | .taking id => s.created[id]?.bind fun x => takeMove s id x
  | .setting id key value => s.created[id]?.map fun x => setMove s id (x.setAttribute key value)
  | .marking => some ({ s with closed := true }, .closingConnector, [.marked])
  | .closingConnector => some (s, .emptying, [])
  | .emptying => some ({ s with sessions := [] }, .closing s.sessions, [.emptied s.sessions])
  | .closing [] => some (s, .ended, [])
  | .closing (id :: sessions) =>
    s.created[id]?.map fun x => (s.withSession id x.close, .closing sessions, [.sessionClosed id])
  | .closingSession id =>
    s.created[id]?.map fun x => (s.withSession id x.close, .ended, [.sessionClosed id])
  | .opened _ | .ended => none

def endpointThreads : Threads EndpointOp Bool EndpointShared EndpointLocal EndpointEvent where
  enter
    | .packetHook packet => .copying packet
    | .newSession => .checking
    | .removeSession id => .removing id
    | .sendPacket data => .sending data
    | .close => .marking
    | .takeCall id => .taking id
    | .closeSession id => .closingSession id
    | .setAttribute id key value => .setting id key value
  next := endpointNext

end Uartbus.Model
