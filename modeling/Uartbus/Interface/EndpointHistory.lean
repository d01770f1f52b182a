import Uartbus.Lib.Trace
import Uartbus.Model.Endpoint

/-!
# What the history of an endpoint says

The log of `endpointThreads` read without the state: which sessions are registered, which packets
have been put to a session before it was closed and taken from it, and how its attributes are set.
`FanOutFits` says of an entry that it is right after what was before it; `HookPuts` and `SendPuts`
what one packet of the gateway and one packet of a client leave in the log.
-/

set_option autoImplicit false

namespace Uartbus.Interface

open Lib Model

/-- One entry more: a session is registered from its creation until it is removed or the endpoint
is closed. -/
def sessionsAfter (sessions : List ℕ) : EndpointEvent → List ℕ
  | .created id => sessions ++ [id]
  | .removed id => sessions.filter fun i => decide (i ≠ id)
  | .emptied _ => []
  | _ => sessions

/-- The registered sessions. -/
def sessionsIn (log : List (ℕ × EndpointEvent)) : List ℕ :=
  log.foldl (fun sessions e => sessionsAfter sessions e.2) []

def takenBy (id : ℕ) : EndpointEvent → Option Bytes
  | .took id' packet => if id' = id then some packet else none
  | _ => none

/-- The packets that `take` has returned. -/
def takenFrom (id : ℕ) (log : List (ℕ × EndpointEvent)) : List Bytes :=
  log.filterMap fun e => takenBy id e.2

def resultBy (id : ℕ) : EndpointEvent → Option (Except String Bytes)
  | .took id' packet => if id' = id then some (.ok packet) else none
  | .endOfReceive id' => if id' = id then some (.error endOfReceive) else none
  | _ => none

/-- What `take` has returned, the errors with the packets. -/
def resultsOf (id : ℕ) (log : List (ℕ × EndpointEvent)) : List (Except String Bytes) :=
  log.filterMap fun e => resultBy id e.2

def putBy (id : ℕ) : EndpointEvent → Option Bytes
  | .put id' packet => if id' = id then some packet else none
  | _ => none

def closesSession (id : ℕ) : EndpointEvent → Bool
  | .sessionClosed id' => decide (id' = id)
  | _ => false

/-- The session has been closed. -/
def closedIn (id : ℕ) (log : List (ℕ × EndpointEvent)) : Bool :=
  log.any fun e => closesSession id e.2

/-- The packets that have been put to the session before it was closed. -/
def putsTo (id : ℕ) (log : List (ℕ × EndpointEvent)) : List Bytes :=
  (log.takeWhile fun e => !closesSession id e.2).filterMap fun e => putBy id e.2

def flagAfter (which : Attribute) (id : ℕ) (value : Bool) : EndpointEvent → Bool
  | .attributesSet id' values => if id' = id then values which else value
  | _ => value

/-- An attribute of a session: as it was set last, or the default. -/
def flagIn (default : Attribute → Bool) (which : Attribute) (id : ℕ)
    (log : List (ℕ × EndpointEvent)) : Bool :=
  log.foldl (fun value e => flagAfter which id value e.2) (default which)

/-- The list that is copied is the one of the registered sessions, without repetitions; an attribute
is loaded as it is set; packets are put to sessions that have been created; a packet that is taken
is the next one that was put; and the error is returned only by a closed session from which
everything has been taken. -/
def FanOutFits (default : Attribute → Bool) (before : List (ℕ × EndpointEvent))
    (e : ℕ × EndpointEvent) : Prop :=
  match e.2 with
  | .copied _ sessions => sessions = sessionsIn before ∧ sessions.Nodup
  | .loaded which id value => value = flagIn default which id before
  | .put id _ => ∃ j, (j, .created id) ∈ before
  | .took id packet => takenFrom id before ++ [packet] <+: putsTo id before
  | .endOfReceive id => closedIn id before = true ∧ takenFrom id before = putsTo id before
  | _ => True

/-- What `take` returns from a closed session with these packets in its queue. -/
def lastTaken (id : ℕ) : List Bytes → EndpointEvent
  | packet :: _ => .took id packet
  | [] => .endOfReceive id

/-- A packet of the gateway is put once to every session of the copied list. -/
def HookPuts (packet : Bytes) (events : List EndpointEvent) : Prop :=
  ∃ sessions : List ℕ, events = .copied packet sessions :: sessions.map fun id => .put id packet

/-- Why a session gets a sent packet, or does not. -/
inductive SendOutcome where
  | byLoopback
  | byEcho
  | skipped
  deriving DecidableEq, Repr

/-- The loads of the attributes, and the packet when one of them is set. -/
def sentEvents (data : Bytes) : ℕ × SendOutcome → List EndpointEvent
  | (id, .byLoopback) => [.loaded .loopbackSendPackets id true, .put id data]
  | (id, .byEcho) =>
    [.loaded .loopbackSendPackets id false, .loaded .echoLoopback id true, .put id data]
  | (id, .skipped) =>
    [.loaded .loopbackSendPackets id false, .loaded .echoLoopback id false]

/-- A packet that the connector has sent is put once to every session of the copied list that has
one of the attributes set; one that it has not sent is put to none. -/
def SendPuts (data : Bytes) (events : List EndpointEvent) : Prop :=
  events = [.sendFailed data] ∨
    ∃ outcomes : List (ℕ × SendOutcome), events =
      .sent data :: .copied data (outcomes.map Prod.fst) :: outcomes.flatMap (sentEvents data)

end Uartbus.Interface
