import Uartbus.Model.Host

/-!
# The callbacks of the bus host

`ub_rec_byte` and `ub_event` (ub_uartbus.c) fill the receive buffer of the host while the link
layer runs, bytes from an interrupt.  `try_dispatch_received_packet` releases the buffer before
it calls `dispatch`, so callbacks come while `dispatch` is running, and it touches `received_ep`
once more when `dispatch` has returned: `Reception` has these two moments apart.
-/

set_option autoImplicit false

namespace Uartbus.Model

/-- What the link layer calls. -/
inductive HostCallback where
  /-- `serial_byte_received`. -/
  | byte (b : UInt8)
  /-- `serial_event`. -/
  | event (e : UartbusEvent)
  deriving DecidableEq, Repr

namespace HostReceive

/-- A byte that finds the buffer full is dropped with everything in the buffer.
SOURCE: ub_uartbus.c:15-26 -/
def ubRecByte (build : HostBuild) (s : HostReceive) (b : UInt8) : HostReceive :=
  if s.receivedData.length = build.maxPacketSize then { s with receivedData := [] }
  else { s with receivedData := s.receivedData ++ [b] }

/-- SOURCE: ub_uartbus.c:30-48 -/
def ubEvent (s : HostReceive) (e : UartbusEvent) : HostReceive :=
  let s :=
    if e = .collisionStart ∨ e = .receiveStart ∨ e = .sendEnd then
      { s with receivedData := [], received := false }
    else s
  if e = .receiveEnd then { s with received := decide (0 ≠ s.receivedData.length) } else s

def callback (build : HostBuild) (s : HostReceive) : HostCallback → HostReceive
  | .byte b => s.ubRecByte build b
  | .event e => s.ubEvent e

end HostReceive

/-- The buffer, whether `dispatch` is running, and the callbacks so far. -/
structure Reception where
  host : HostReceive
  dispatching : Bool
  seen : List HostCallback
  deriving DecidableEq, Repr

inductive ReceptionAction where
  | callback (c : HostCallback)
  /-- `try_dispatch_received_packet`, up to its end or to the call of `dispatch`. -/
  | tryDispatch
  /-- `dispatch` returns, and the function ends. -/
  | returns
  deriving DecidableEq, Repr

/-- SOURCE: ub_uartbus.c:15-48, ub_bootloader.c:504-567 -/
def receptionStep (build : HostBuild) (r : Reception) : ReceptionAction → Option Reception
  | .callback c => some { r with host := r.host.callback build c, seen := r.seen ++ [c] }
  | .tryDispatch =>
    if r.dispatching then none
    else
      let result := r.host.tryDispatchReceivedPacket build
      some { r with host := result.1, dispatching := result.2.isSome }
  | .returns =>
    if r.dispatching then
      some { r with host := { r.host with receivedData := [] }, dispatching := false }
    else none

/-- The host after `init_bus`. -/
def Reception.initial : Reception :=
  { host := HostReceive.initial, dispatching := false, seen := [] }

end Uartbus.Model
