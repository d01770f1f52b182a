import Uartbus.Lib.Threads
import Uartbus.Model.RpcBus

/-!
# The calls of a client bus

The functions of `UartBus` (rpc/bus.rs) as calls of many threads.  One move is one critical
section of `pending_requests` or of a list of listeners, one `fetch_add`, one send or one call of
a listener.

A transaction is held by its caller until it is dropped, which revokes it.  The callers' waiting
for the response only reads it and is left out.
-/

set_option autoImplicit false

namespace Uartbus.Model

open Lib

/-- The two lists of listeners. -/
inductive ListenerKind where
  | unrelated
  | invalid
  deriving DecidableEq, Repr

/-- An entry of a list of listeners: its id and which function it is. -/
abbrev Listener : Type := ℕ × ℕ

/-- SOURCE: rpc/bus.rs:33-40, 123-131 -/
structure BusShared where
  /-- `from_address` and `pending_requests`. -/
  bus : UartBus
  nextListenerId : ℕ
  unrelatedPackets : List Listener
  invalidPackets : List Listener
  /-- The field `response` of each transaction. -/
  response : ℕ → Option Bytes

/-- SOURCE: rpc/bus.rs:144-160 -/
def BusShared.build (fromAddress : ℤ) : BusShared where
  bus := ⟨fromAddress, [], 0⟩
  nextListenerId := 0
  unrelatedPackets := []
  invalidPackets := []
  response := fun _ => none

def BusShared.listeners (s : BusShared) : ListenerKind → List Listener
  | .unrelated => s.unrelatedPackets
  | .invalid => s.invalidPackets

inductive BusOp where
  | newTransaction (toAddress : ℤ) (path payload : Bytes) (zeroNamespaceAnswer : Bool)
  | subscribeResponse (state : TransactionState)
  | processPacket (raw : Bytes)
  | addListener (kind : ListenerKind) (listener : ℕ)
  | removeUnrelatedPacketListener (id : ℕ)

/-- What a call does next. -/
inductive BusLocal where
  /-- `to_packet` -/
  | building (toAddress : ℤ) (path payload : Bytes) (zeroNamespaceAnswer : Bool)
  /-- `register`, then the packet is sent if there is one. -/
  | registering (state : TransactionState) (packet : Option Bytes)
  | sending (id : ℕ) (packet : Bytes)
  /-- The transaction is dropped, at any time. -/
  | holding (id : ℕ)
  | receiving (raw : Bytes)
  | pairing (parsed : ParsedUartBusPacket)
  /-- `dispatch` copies the list. -/
  | copying (kind : ListenerKind) (data : Bytes)
  | calling (data : Bytes) (listeners : List Listener)
  | numbering (kind : ListenerKind) (listener : ℕ)
  | pushing (kind : ListenerKind) (entry : Listener)
  | removing (id : ℕ)
  | ended

inductive BusEvent where
  | registered (id : ℕ) (state : TransactionState)
  | revoked (id : ℕ)
  | sent (packet : Bytes)
  | sendFailed
  /-- The response of the transaction is set. -/
  | accepted (id : ℕ) (parsed : ParsedUartBusPacket)
  | unmatched (parsed : ParsedUartBusPacket)
  | unparsable (err : UnpackError)
  | copied (kind : ListenerKind) (listeners : List Listener)
  | called (listener : Listener) (data : Bytes)
  | listenerAdded (kind : ListenerKind) (entry : Listener)
  | listenerRemoved (id : ℕ)

/-- SOURCE: rpc/bus.rs:243-259 -/
def receivePacket (raw : Bytes) : BusLocal × List BusEvent :=
  match getValidPacket raw with
  | none => (.copying .invalid raw, [])
  | some data =>
    match ParsedUartBusPacket.new data with
    | .error err => (.ended, [.unparsable err])
    | .ok parsed => (.pairing parsed, [])

/-- The critical section of `process_packet`; `try_accept_response` sets the response.
SOURCE: rpc/bus.rs:261-267, 63 -/
def BusShared.pair (s : BusShared) (parsed : ParsedUartBusPacket) :
    BusShared × BusLocal × List BusEvent :=
  match s.bus.processPacket parsed.packet with
  | (bus, some id) =>
    ({ s with bus := bus, response := Function.update s.response id (some parsed.payload) },
      .ended, [.accepted id parsed])
  | (bus, none) =>
    ({ s with bus := bus }, .copying .unrelated parsed.rawPacket, [.unmatched parsed])

/-- SOURCE: rpc/bus.rs:201-209 -/
def BusShared.push (s : BusShared) (kind : ListenerKind) (entry : Listener) : BusShared :=
  match kind with
  | .unrelated => { s with unrelatedPackets := s.unrelatedPackets ++ [entry] }
  | .invalid => { s with invalidPackets := s.invalidPackets ++ [entry] }

/-- After `to_packet`; an error is returned to the caller.
SOURCE: rpc/bus.rs:315-323 -/
def transactionOf (state : TransactionState) : Except PackError Bytes → BusLocal
  | .error _ => .ended
  | .ok packet => .registering state (some packet)

/-- One move; the choice says whether a send succeeds.
SOURCE: rpc/bus.rs:117-121, 197-338 -/
def busNext (sent : Bool) (s : BusShared) : BusLocal → Option (BusShared × BusLocal × List BusEvent)
  | .building toAddress path payload zeroNamespaceAnswer =>
    some (s, transactionOf ⟨toAddress, s.bus.fromAddress, path, zeroNamespaceAnswer⟩
      (toPacket toAddress s.bus.fromAddress [.bytes payload]), [])
  | .registering state packet =>
    let (bus, id) := s.bus.register state.fromAddress state.toAddress state.path
      state.zeroNamespaceAnswer
    let next : BusLocal :=
      match packet with
      | some packet => .sending id packet
      | none => .holding id
    some ({ s with bus := bus }, next, [.registered id state])
  | .sending id packet =>
    -- a transaction whose packet could not be sent is dropped with the error
    some (s, .holding id, [if sent then .sent packet else .sendFailed])
  | .holding id => some ({ s with bus := s.bus.revokePendingRequest id }, .ended, [.revoked id])
  | .receiving raw => some (s, receivePacket raw)
  | .pairing parsed => some (s.pair parsed)
  | .copying kind data =>
    some (s, .calling data (s.listeners kind), [.copied kind (s.listeners kind)])
  | .calling _ [] => some (s, .ended, [])
  | .calling data (listener :: listeners) =>
    some (s, .calling data listeners, [.called listener data])
  | .numbering kind listener =>
    some ({ s with nextListenerId := (s.nextListenerId + 1) % 2 ^ 64 },
      .pushing kind (s.nextListenerId, listener), [])
  | .pushing kind entry => some (s.push kind entry, .ended, [.listenerAdded kind entry])
  | .removing id =>
    some ({ s with unrelatedPackets := s.unrelatedPackets.filter fun l => decide (l.1 ≠ id) },
      .ended, [.listenerRemoved id])
  | .ended => none

def busThreads : Threads BusOp Bool BusShared BusLocal BusEvent where
  enter
    | .newTransaction toAddress path payload zeroNamespaceAnswer =>
      .building toAddress path payload zeroNamespaceAnswer
    | .subscribeResponse state => .registering state none
    | .processPacket raw => .receiving raw
    | .addListener kind listener => .numbering kind listener
    | .removeUnrelatedPacketListener id => .removing id
  next := busNext

end Uartbus.Model
