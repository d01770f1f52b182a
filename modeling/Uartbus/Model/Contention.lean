import Uartbus.Model.LinkSystem

/-!
# Two nodes after a collision

Two nodes on one bus, with one clock and the same bytes on the wire, from a collision up to the
first start of a transmission.  At an instant of the schedule both nodes do the same: the clock
goes on, a byte arrives, or `ub_manage_connection` is called.  What `rand` returns is chosen for
each node and each instant.  There is no third sender: bytes arrive only while one of the two
transmits or has broken its transmission off.
-/

set_option autoImplicit false

namespace Uartbus.Model

/-- The next step of the running `ub_send_packet`, if there is one.  No byte is passed to
`do_send_byte` and nothing random is read before the status is set. -/
def Node.advance (n : Node) : Node :=
  match n.sender with
  | some (packet, point) => n.sendStep packet 0 0 point
  | none => n

/-- `ub_manage_connection`, up to its return or to the point where the `ub_send_packet` it calls
has set the status.
SOURCE: ub.c:469-503, 298-305 -/
def Node.manageConnection (n : Node) (received : Bytes) (rand : UInt8)
    (sendOnIdle : Node.SendOnIdle) : Node :=
  (n.manage received rand sendOnIdle).advance.advance

/-- The node transmits, or has broken its transmission off. -/
def Node.transmits (n : Node) : Prop := n.bus.status = .sending ∨ n.bus.status = .collision

instance (n : Node) : Decidable n.transmits := inferInstanceAs (Decidable (_ ∨ _))

structure Contention where
  first : Node
  second : Node
  deriving DecidableEq, Repr

/-- What happens at one instant. -/
inductive ContentionAction where
  | tick (us : ℕ)
  | byte (data : UInt16)
  | manage (received : Bytes) (firstRand secondRand : UInt8)
      (firstIdle secondIdle : Node.SendOnIdle)
  deriving DecidableEq, Repr

namespace Contention

/-- One of the nodes has started to send. -/
def decided (c : Contention) : Prop :=
  c.first.bus.status = .sending ∨ c.second.bus.status = .sending

/-- The bytes on the bus are those of the two nodes. -/
def mayArrive (c : Contention) (received : Bytes) : Prop :=
  received = [] ∨ c.first.transmits ∨ c.second.transmits

instance (c : Contention) : Decidable c.decided := inferInstanceAs (Decidable (_ ∨ _))

instance (c : Contention) (received : Bytes) : Decidable (c.mayArrive received) :=
  inferInstanceAs (Decidable (_ ∨ _))

/-- Both nodes at one instant. -/
def step (c : Contention) (a : ContentionAction) : Option Contention :=
  if c.decided then none
  else
    match a with
    | .tick us =>
      some ⟨{ c.first with time := c.first.time + us },
        { c.second with time := c.second.time + us }⟩
    | .byte data =>
      if c.first.transmits ∨ c.second.transmits then
        some ⟨c.first.feed data, c.second.feed data⟩
      else none
    | .manage received firstRand secondRand firstIdle secondIdle =>
      if c.mayArrive received then
        some ⟨c.first.manageConnection received firstRand firstIdle,
          c.second.manageConnection received secondRand secondIdle⟩
      else none

end Contention

end Uartbus.Model
