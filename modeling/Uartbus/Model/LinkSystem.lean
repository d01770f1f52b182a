import Uartbus.Lib.Run
import Uartbus.Model.Link

/-!
# One node on the bus

The bus structure of one node together with its clock, a running call of `ub_send_packet` and
everything observed so far.  `ub_send_packet` is cut at each access to the bus structure and at
each callback, so that received bytes, clock advances and calls from other loops can come
between any two of its steps (`step`).  In `stepAtomic` they come only where the call waits:
inside `do_send_byte` and `do_receive_byte`, and in the polling loops.
-/

set_option autoImplicit false

namespace Uartbus.Model

open Lib

/-- Where a running `ub_send_packet` stands; `i` is the loop counter.
SOURCE: ub.c:298-387 -/
inductive SendPoint where
  /-- Called, before `bus->status != ub_stat_idle`. -/
  | entry
  /-- Before `bus->status = ub_stat_sending`. -/
  | checked
  /-- Before `ub_update_last_activity_now`. -/
  | statusSet
  /-- Before the `send_start` event. -/
  | activityUpdated
  /-- Before `bus->wi = ~0`. -/
  | started
  /-- At the loop condition `i < size`. -/
  | loopHead (i : ℕ)
  /-- Before `ub_stat_sending == bus->status` of a polling loop. -/
  | pollStatus (i : ℕ)
  /-- Before `bus->wi != ~0` of a polling loop. -/
  | pollWi (i : ℕ)
  /-- Before `ub_out_update_state` in a polling loop. -/
  | pollUpdate (i : ℕ)
  /-- Before `ub_stat_sending != bus->status` behind a polling loop. -/
  | statusCheck (i : ℕ)
  /-- Before `bus->wi = val`. -/
  | assignWi (i : ℕ)
  /-- Before the call of `do_send_byte`. -/
  | callSend (i : ℕ)
  /-- Inside `do_send_byte`. -/
  | inSend (i : ℕ)
  /-- Inside `do_receive_byte`. -/
  | inReceive (i : ℕ)
  deriving DecidableEq, Repr

/-- The points where the call waits for something outside. -/
def SendPoint.interruptible : SendPoint → Bool
  | .pollStatus _ | .pollWi _ | .pollUpdate _ | .inSend _ | .inReceive _ => true
  | _ => false

structure Node where
  bus : Bus
  time : ℕ
  sender : Option (Bytes × SendPoint)
  trace : List (ℕ × Observation)
  deriving DecidableEq, Repr

namespace Node

/-- `current_usec`. -/
def now (n : Node) : ℕ := n.time % 2 ^ 32

/-- The bus structure and the observations after a call at the present time. -/
def emit (n : Node) (r : Bus × List Observation) : Node :=
  { n with bus := r.1, trace := n.trace ++ r.2.map fun o => (n.time, o) }

def moveTo (n : Node) (packet : Bytes) (point : SendPoint) : Node :=
  { n with sender := some (packet, point) }

/-- `ub_send_packet` returns. -/
def leave (n : Node) (r : ℤ) : Node := { n.emit (n.bus, [.returned r]) with sender := none }

def feed (n : Node) (data : UInt16) : Node := n.emit (n.bus.ubOutRecByte n.now data)

def update (n : Node) (rand : UInt8) : Node := n.emit (n.bus.ubOutUpdateState n.now rand)

/-- A `uint8_t` returned as `int8_t`. -/
def statToInt8 (stat : UInt8) : ℤ :=
  if stat.toNat < 128 then (stat.toNat : ℤ) else (stat.toNat : ℤ) - 256

/-- The next step of the running `ub_send_packet`; `stat` is what `do_send_byte` returns and
`rand` what `rand` returns, where the step calls them.
SOURCE: ub.c:298-387 -/
def sendStep (n : Node) (packet : Bytes) (stat rand : UInt8) : SendPoint → Node
  | .entry =>
    if n.bus.status ≠ .idle then n.leave 1
    else (n.emit (n.bus, [.accepted packet])).moveTo packet .checked
  | .checked => (n.emit ({ n.bus with status := .sending }, [])).moveTo packet .statusSet
  | .statusSet => (n.emit (n.bus.updateLastActivityNow n.now, [])).moveTo packet .activityUpdated
  | .activityUpdated => (n.emit (n.bus, [.event .sendStart])).moveTo packet .started
  | .started => (n.emit ({ n.bus with wi := -1 }, [])).moveTo packet (.loopHead 0)
  | .loopHead i =>
    if n.bus.interrupt then n.moveTo packet (.pollStatus i)
    else if i < packet.length then n.moveTo packet (.assignWi i)
    else n.leave 0
  | .pollStatus i =>
    if n.bus.status = .sending then n.moveTo packet (.pollWi i)
    else n.moveTo packet (.statusCheck i)
  | .pollWi i =>
    if n.bus.wi ≠ -1 then n.moveTo packet (.pollUpdate i) else n.moveTo packet (.statusCheck i)
  | .pollUpdate i => (n.update rand).moveTo packet (.pollStatus i)
  | .statusCheck i =>
    if n.bus.status ≠ .sending then n.leave (-2)
    else if i < packet.length then n.moveTo packet (.assignWi i)
    else n.leave 0
  | .assignWi i =>
    let val := packet.getD i 0
    (n.emit ({ n.bus with wi := (val.toNat : ℤ) }, [.expect val])).moveTo packet (.callSend i)
  | .callSend i => (n.emit (n.bus, [.passed (packet.getD i 0)])).moveTo packet (.inSend i)
  | .inSend i =>
    if stat ≠ 0 then n.leave (statToInt8 stat)
    else if n.bus.interrupt then n.moveTo packet (.loopHead (i + 1))
    else n.moveTo packet (.inReceive i)
  | .inReceive i => n.moveTo packet (.loopHead (i + 1))

/-- What `send_on_idle` does: it is `NULL`, it has nothing (a nonzero return), or it hands a
packet over. -/
inductive SendOnIdle where
  | null
  | nothing
  | packet (data : Bytes)
  deriving DecidableEq, Repr

/-- The size written through the `uint16_t` pointer. -/
def SendOnIdle.size : SendOnIdle → ℕ
  | .packet data => data.length
  | _ => 0

/-- `ub_try_receive` with the bytes `do_receive_byte` has.
SOURCE: ub.c:425-440 -/
def tryReceive (n : Node) (received : Bytes) : Node :=
  received.foldl (fun n b => n.feed b.toUInt16) n

/-- `ub_manage_connection` up to its return or to its call of `ub_send_packet`.
SOURCE: ub.c:469-503 -/
def manage (n : Node) (received : Bytes) (rand : UInt8) (sendOnIdle : SendOnIdle) : Node :=
  let n := if n.bus.interrupt then n else n.tryReceive received
  let n := n.update rand
  if n.bus.status = .idle then
    if n.bus.toSendSize = 0 then
      match sendOnIdle with
      | .null => n.emit (n.bus, [.managed 2])
      | .nothing => n.emit (n.bus, [.managed 1])
      | .packet data =>
        let n := n.emit ({ n.bus with toSend := data, toSendSize := data.length }, [])
        if data.length ≠ 0 then n.moveTo data .entry else n.emit (n.bus, [.managed 2])
    else n.moveTo (n.bus.toSend.take n.bus.toSendSize) .entry
  else n.emit (n.bus, [.managed 2])

/-- With interrupt reads, `ub_manage_connection` gets to its call of `send_on_idle`.
SOURCE: ub.c:476-490 -/
def callsSendOnIdle (n : Node) (rand : UInt8) : Prop :=
  (n.update rand).bus.status = .idle ∧ (n.update rand).bus.toSendSize = 0

instance (n : Node) (rand : UInt8) : Decidable (n.callsSendOnIdle rand) :=
  inferInstanceAs (Decidable (_ ∧ _))

end Node

/-- What can happen next.  `sender` is a step of the running `ub_send_packet`; the others are
calls from elsewhere and the clock. -/
inductive LinkAction where
  | recByte (data : UInt16)
  | predict
  | update (rand : UInt8)
  | prewait (cycles : UInt8)
  | tick (us : ℕ)
  | send (packet : Bytes)
  | manage (received : Bytes) (rand : UInt8) (sendOnIdle : Node.SendOnIdle)
  | sender (stat rand : UInt8)
  deriving DecidableEq, Repr

/-- A step at the granularity of single accesses.  There is one sender: `ub_send_packet` and
`ub_manage_connection` are not called while a `ub_send_packet` runs. -/
def step (n : Node) : LinkAction → Option Node
  | .recByte data => some (n.feed data)
  | .predict => some (n.emit (n.bus.ubPredictTransmissionStart n.now))
  | .update rand => some (n.update rand)
  | .prewait cycles => some (n.emit (n.bus.ubPrewait cycles, []))
  | .tick us => some { n with time := n.time + us }
  | .send packet =>
    if n.sender = none ∧ packet.length < 2 ^ 16 then some (n.moveTo packet .entry) else none
  | .manage received rand sendOnIdle =>
    if n.sender = none ∧ sendOnIdle.size < 2 ^ 16 then
      some (n.manage received rand sendOnIdle)
    else none
  | .sender stat rand =>
    match n.sender with
    | none => none
    | some (packet, point) => some (n.sendStep packet stat rand point)

/-- Nothing runs, or `ub_send_packet` waits. -/
def Node.between (n : Node) : Bool :=
  match n.sender with
  | none => true
  | some (_, point) => point.interruptible

/-- A step with each call atomic. -/
def stepAtomic (n : Node) (a : LinkAction) : Option Node :=
  match a with
  | .sender _ _ => step n a
  | _ => if n.between then step n a else none

/-- The observations without their times. -/
def Node.obs (n : Node) : List Observation := n.trace.map Prod.snd

section

variable (n : Node) (r : Bus × List Observation) (packet : Bytes) (point : SendPoint)

@[simp] theorem emit_bus : (n.emit r).bus = r.1 := rfl

@[simp] theorem emit_time : (n.emit r).time = n.time := rfl

@[simp] theorem emit_sender : (n.emit r).sender = n.sender := rfl

@[simp] theorem emit_obs : (n.emit r).obs = n.obs ++ r.2 := by
  simp [Node.obs, Node.emit, Function.comp_def]

@[simp] theorem moveTo_bus : (n.moveTo packet point).bus = n.bus := rfl

@[simp] theorem moveTo_time : (n.moveTo packet point).time = n.time := rfl

@[simp] theorem moveTo_sender : (n.moveTo packet point).sender = some (packet, point) := rfl

@[simp] theorem moveTo_trace : (n.moveTo packet point).trace = n.trace := rfl

@[simp] theorem moveTo_obs : (n.moveTo packet point).obs = n.obs := rfl

@[simp] theorem leave_bus (v : ℤ) : (n.leave v).bus = n.bus := rfl

@[simp] theorem leave_time (v : ℤ) : (n.leave v).time = n.time := rfl

@[simp] theorem leave_sender (v : ℤ) : (n.leave v).sender = none := rfl

@[simp] theorem leave_obs (v : ℤ) : (n.leave v).obs = n.obs ++ [.returned v] := by
  simp [Node.obs, Node.leave, Node.emit]

end

/-- A node after `ub_init`; `wi` is whatever the memory held. -/
def Node.init (byteTimeUs packetTimeout : ℕ) (cfg : UInt8) (wi : ℤ) (time : ℕ) : Node :=
  { bus := Bus.ubInit
      { toSend := [], toSendSize := 0, status := .disconnected, byteTimeUs := byteTimeUs,
        packetTimeout := packetTimeout, cfg := cfg, lastBusActivity := 0, wi := wi }
      (time % 2 ^ 32)
    time := time
    sender := none
    trace := [] }

theorem stepAtomic_eq_some {n n' : Node} {a : LinkAction} (h : stepAtomic n a = some n') :
    step n a = some n' := by
  unfold stepAtomic at h
  cases a with
  | sender stat rand => exact h
  | recByte _ | predict | update _ | prewait _ | tick _ | send _ | manage _ _ _ =>
    simp only at h
    split at h
    · exact h
    · cases h

end Uartbus.Model
