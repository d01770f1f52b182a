import Uartbus.Model.Link

/-!
# The time-out in the arithmetic of its types

`is_slice_exceed` with its flag, over a clock of 32 bits, and the clock of the Linux gateway, which
shows the microseconds of the current second only.
-/

set_option autoImplicit false

namespace Uartbus.Model

/-- A bus whose fields have the sizes of their types.
SOURCE: ub.h:122-124, 132 -/
structure SizedBus where
  bus : Bus
  byteTimeUs_lt : bus.byteTimeUs < 2 ^ 16
  packetTimeout_lt : bus.packetTimeout < 2 ^ 8
  lastBusActivity_lt : bus.lastBusActivity < 2 ^ 32

namespace SizedBus

/-- The product the elapsed time is compared with. -/
def timeout (b : SizedBus) : ℕ := b.bus.byteTimeUs * b.bus.sliceCycles

/-- The bus after an activity that the clock dates with `now`. -/
def activeAt (b : SizedBus) (now : UInt32) : SizedBus where
  bus := b.bus.updateLastActivityNow now.toNat
  byteTimeUs_lt := b.byteTimeUs_lt
  packetTimeout_lt := b.packetTimeout_lt
  lastBusActivity_lt := now.toNat_lt

end SizedBus

/-- The result, and the bus afterwards.
SOURCE: ub.c:65-106 -/
def Bus.isSliceExceedUpdate (bus : Bus) (update : Bool) (now : UInt32) : Bool × Bus :=
  let last := UInt32.ofNat bus.lastBusActivity
  let bus := if update then { bus with lastBusActivity := now.toNat } else bus
  let mul := if bus.status = .fairwait then UInt8.ofInt bus.wi else UInt8.ofNat bus.packetTimeout
  let timeout := (UInt16.ofNat bus.byteTimeUs).toUInt32 * mul.toUInt32
  if now < last then (decide (now + (0xFFFFFFFF - last) ≥ timeout), bus)
  else (decide (now - last ≥ timeout), bus)

/-! ## The clock of the Linux gateway -/

/-- `struct timeval` -/
structure Timeval where
  tvSec : ℕ
  tvUsec : ℕ
  tvUsec_lt : tvUsec < 1000000

/-- The real time is counted in microseconds. -/
def gettimeofday (time : ℕ) : Timeval where
  tvSec := time / 1000000
  tvUsec := time % 1000000
  tvUsec_lt := Nat.mod_lt _ (Nat.succ_pos _)

/-- SOURCE: linux_bus_gateway.c:33-41 -/
def linuxMicros (time : ℕ) : UInt32 := UInt32.ofNat (gettimeofday time).tvUsec

end Uartbus.Model
