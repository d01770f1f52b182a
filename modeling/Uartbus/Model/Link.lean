import Uartbus.Lib.Bytes
import Mathlib.Algebra.Group.Nat.Defs
import Mathlib.Data.Int.Notation
import Mathlib.Data.List.Basic

/-!
# The link layer

The data link state machine of ub.c.  Each function takes the bus structure and what it reads
from its callbacks (the clock `now`, a random byte), and returns the structure afterwards with
what the callbacks were told, in order.

`wi` is an `int16_t` and `~0` an `int`, so the comparison with `~0` is one with `-1`.  The
clock and `last_bus_activity` are `uint32_t` values.
-/

set_option autoImplicit false

namespace Uartbus.Model

/-- SOURCE: ub.h:37-46 -/
inductive UartbusStatus where
  | disconnected | connecting | idle | sending | fairwait | receiving | collision
  deriving DecidableEq, Repr

/-- SOURCE: ub.h:48-60 -/
inductive UartbusEvent where
  | nothing | receiveStart | receiveEnd | sendStart | sendEnd | collisionStart | collisionEnd
  deriving DecidableEq, Repr

/-- SOURCE: ub.h:62-76 -/
def cfgFairwaitAfterSendLow : UInt8 := 1
def cfgFairwaitAfterSendHigh : UInt8 := 2
def cfgReadWithInterrupt : UInt8 := 4
def cfgSkipCollisionData : UInt8 := 8

/-- The fields of `struct uartbus` that are not callbacks.
SOURCE: ub.h:78-137 -/
structure Bus where
  toSend : Bytes
  toSendSize : ℕ
  status : UartbusStatus
  byteTimeUs : ℕ
  packetTimeout : ℕ
  cfg : UInt8
  lastBusActivity : ℕ
  wi : ℤ
  deriving DecidableEq, Repr

/-- What a run of the link layer shows: the two callbacks, and the places of the code that the
properties below speak about. -/
inductive Observation where
  /-- `serial_event`. -/
  | event (e : UartbusEvent)
  /-- `serial_byte_received`. -/
  | delivered (b : UInt8)
  /-- A call of `ub_out_rec_byte` has returned. -/
  | fed (data : UInt16)
  /-- `ub_out_update_state` has set `to_send_size` to 0. -/
  | cleared
  /-- `ub_send_packet` has found the bus idle. -/
  | accepted (packet : Bytes)
  /-- `ub_send_packet` has set `wi` to a byte of the packet. -/
  | expect (b : UInt8)
  /-- `do_send_byte` is called. -/
  | passed (b : UInt8)
  /-- `ub_send_packet` returns. -/
  | returned (r : ℤ)
  /-- `ub_manage_connection` returns without having called `ub_send_packet`. -/
  | managed (r : ℤ)
  deriving DecidableEq, Repr

namespace Bus

def hasCfg (bus : Bus) (bit : UInt8) : Bool := decide (bus.cfg &&& bit ≠ 0)

/-- `bus->cfg & ub_cfg_read_with_interrupt`. -/
def interrupt (bus : Bus) : Bool := bus.hasCfg cfgReadWithInterrupt

/-- SOURCE: ub.c:35-38 -/
def updateLastActivityNow (bus : Bus) (now : ℕ) : Bus := { bus with lastBusActivity := now }

/-- SOURCE: ub.c:40-53 -/
def getFairwaitConfCycles (bus : Bus) : ℕ :=
  1 + ((if bus.hasCfg cfgFairwaitAfterSendLow then 1 else 0) +
    (if bus.hasCfg cfgFairwaitAfterSendHigh then 2 else 0))

/-- The multiplier of the byte time: `packet_timeout`, or `wi` as a `uint8_t` in fairwait.
SOURCE: ub.c:79-97 -/
def sliceCycles (bus : Bus) : ℕ :=
  if bus.status = .fairwait then (bus.wi % 256).toNat else bus.packetTimeout

/-- The result of `is_slice_exceed`; with `update` set the function also stores the clock.
SOURCE: ub.c:65-106 -/
def isSliceExceed (bus : Bus) (now : ℕ) : Bool :=
  let last := bus.lastBusActivity
  let timeout := bus.byteTimeUs * bus.sliceCycles
  if now < last then decide (now + (2 ^ 32 - 1 - last) ≥ timeout)
  else decide (now - last ≥ timeout)

/-- SOURCE: ub.c:140-154 -/
def ubCollisionHappened (bus : Bus) : Bus × List Observation :=
  ({ bus with status := .collision },
    (if bus.status ≠ .collision then [.event .collisionStart] else []) ++
      (if bus.status = .sending then [.event .sendEnd] else []))

/-- SOURCE: ub.c:156-229 -/
def ubOutUpdateState (bus : Bus) (now : ℕ) (rand : UInt8) : Bus × List Observation :=
  if bus.status = .idle then (bus, [])
  else if bus.isSliceExceed now = false then (bus, [])
  else
    match bus.status with
    | .fairwait => ({ bus with status := .idle, lastBusActivity := now }, [])
    | .receiving =>
      ({ bus with
          wi := ((bus.getFairwaitConfCycles + rand.toNat % 3 : ℕ) : ℤ)
          status := .fairwait
          lastBusActivity := now }, [.event .receiveEnd])
    | .sending =>
      if bus.wi ≠ -1 then bus.ubCollisionHappened
      else
        ({ bus with
            toSendSize := 0
            wi := (bus.getFairwaitConfCycles : ℤ)
            status := .fairwait
            lastBusActivity := now }, [.cleared, .event .sendEnd])
    | .collision =>
      ({ bus with
          wi := (bus.getFairwaitConfCycles : ℤ)
          status := .fairwait
          lastBusActivity := now }, [.event .collisionEnd])
    | .idle | .connecting | .disconnected => ({ bus with status := .idle }, [])

/-- The clock is stored when the first two tests of the condition fail, through
`is_slice_exceed(bus, true)`.
SOURCE: ub.c:231-256 -/
def ubCheckAndHandleCollision (bus : Bus) (now : ℕ) (data : UInt16) : Bus × List Observation :=
  if data.toNat > 255 ∨ bus.wi ≠ data.toNat then
    let (after, obs) := bus.ubCollisionHappened
    (after, obs ++ if bus.hasCfg cfgSkipCollisionData then [] else [.delivered data.toUInt8])
  else if bus.isSliceExceed now then
    let (after, obs) := (bus.updateLastActivityNow now).ubCollisionHappened
    (after, obs ++ if bus.hasCfg cfgSkipCollisionData then [] else [.delivered data.toUInt8])
  else
    ({ bus.updateLastActivityNow now with wi := -1 }, [])

/-- SOURCE: ub.c:442-451 -/
def ubPredictTransmissionStart (bus : Bus) (now : ℕ) : Bus × List Observation :=
  if bus.status = .idle ∨ bus.status = .fairwait then
    ({ bus with status := .receiving, lastBusActivity := now }, [.event .receiveStart])
  else (bus, [])

/-- SOURCE: ub.c:258-288 -/
def ubOutRecByte (bus : Bus) (now : ℕ) (data : UInt16) : Bus × List Observation :=
  if bus.status = .sending ∨ bus.status = .collision then
    if bus.interrupt then
      let (after, obs) := bus.ubCheckAndHandleCollision now data
      (after.updateLastActivityNow now, obs ++ [.fed data])
    else
      (bus.updateLastActivityNow now, [.fed data])
  else if bus.status ≠ .receiving then
    let (after, obs) := bus.ubPredictTransmissionStart now
    (after, obs ++ [.delivered data.toUInt8, .fed data])
  else
    (bus.updateLastActivityNow now, [.delivered data.toUInt8, .fed data])

/-- SOURCE: ub.c:453-460 -/
def ubPrewait (bus : Bus) (cycles : UInt8) : Bus :=
  if bus.status = .idle ∨ bus.status = .fairwait then
    { bus with wi := (cycles.toNat : ℤ), status := .fairwait }
  else bus

/-- SOURCE: ub.c:389-397 -/
def ubInit (bus : Bus) (now : ℕ) : Bus :=
  { bus with status := .connecting, toSend := [], toSendSize := 0, lastBusActivity := now }

end Bus

end Uartbus.Model
