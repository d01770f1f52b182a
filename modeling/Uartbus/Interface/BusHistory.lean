import Uartbus.Lib.Trace
import Uartbus.Model.BusThreads

/-!
# What the history of a client bus says

The log of `busThreads` is read here without the state: which requests are pending, which
listeners there are and which responses have been set.  `FateFits` says of an entry of the log
that it is right after what was before it, `OneFate` what one call of `process_packet` leaves in
the log.
-/

set_option autoImplicit false

namespace Uartbus.Interface

open Lib Model

/-- The packet is sent between the addresses of the request in reverse, and its payload starts with
the path, behind a zero byte if the answer is in the zero namespace. -/
def Matches (t : TransactionState) (p : Packet) : Prop :=
  p.toAddress = t.fromAddress ∧ p.fromAddress = t.toAddress ∧
    (if t.zeroNamespaceAnswer then [0] else []) ++ t.path <+: p.payload

/-- One entry more: a request is pending from its registration until it is revoked or has its
response. -/
def pendingAfter (pending : List (ℕ × TransactionState)) : BusEvent → List (ℕ × TransactionState)
  | .registered id state => pending ++ [(id, state)]
  | .revoked id | .accepted id _ => pending.filter fun t => decide (t.1 ≠ id)
  | _ => pending

/-- The pending requests, in the order of their registration. -/
def pendingIn (log : List (ℕ × BusEvent)) : List (ℕ × TransactionState) :=
  log.foldl (fun pending e => pendingAfter pending e.2) []

def unrelatedAfter (listeners : List Listener) : BusEvent → List Listener
  | .listenerAdded .unrelated entry => listeners ++ [entry]
  | .listenerRemoved id => listeners.filter fun l => decide (l.1 ≠ id)
  | _ => listeners

/-- The listeners of unrelated packets. -/
def unrelatedIn (log : List (ℕ × BusEvent)) : List Listener :=
  log.foldl (fun listeners e => unrelatedAfter listeners e.2) []

/-- The response that an entry sets for a transaction. -/
def responseOf (id : ℕ) (e : ℕ × BusEvent) : Option Bytes :=
  match e.2 with
  | .accepted id' parsed => if id' = id then some parsed.payload else none
  | _ => none

/-- The responses that are set for a transaction. -/
def responsesIn (id : ℕ) (log : List (ℕ × BusEvent)) : List Bytes :=
  log.filterMap (responseOf id)

/-- A packet is given to the earliest pending request that it matches; it is unrelated only when
it matches none; and the list of listeners that is copied is the one at that time. -/
def FateFits (before : List (ℕ × BusEvent)) (e : ℕ × BusEvent) : Prop :=
  match e.2 with
  | .accepted id parsed =>
    ∃ earlier state later, pendingIn before = earlier ++ (id, state) :: later ∧
      Matches state parsed.packet ∧ ∀ t ∈ earlier, ¬ Matches t.2 parsed.packet
  | .unmatched parsed => ∀ t ∈ pendingIn before, ¬ Matches t.2 parsed.packet
  | .copied .unrelated listeners => listeners = unrelatedIn before
  | _ => True

/-- What a call with a packet leaves in the log: it is given to one transaction, or to none and once
to every listener. -/
def OneFate (parsed : ParsedUartBusPacket) (events : List BusEvent) : Prop :=
  (∃ id, events = [.accepted id parsed]) ∨
    ∃ listeners : List Listener, events = .unmatched parsed :: .copied .unrelated listeners ::
      listeners.map fun l => .called l parsed.rawPacket

end Uartbus.Interface
