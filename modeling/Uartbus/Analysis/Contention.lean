import Uartbus.Analysis.LinkProgress
import Uartbus.Model.Contention

/-!
# The step back after a collision

After a collision the wait is `get_fairwait_conf_cycles`; `rand` is read only at the end of a
received frame.  So two nodes that collided stay alike (`Alike`) at every instant, whatever their
random bytes are, and start to send again at the same instant (`no_step_back`).
-/

set_option autoImplicit false

namespace Uartbus.Analysis

open Lib Interface Model

variable {c : Contention} {data : UInt16}

/-- The nodes agree in what decides when they send: setup, clock, status and the wait.  Each has
a packet to send, which may be another one. -/
structure Alike (a b : Node) : Prop where
  setup : SameSetup a.bus b.bus
  time : b.time = a.time
  last : b.bus.lastBusActivity = a.bus.lastBusActivity
  status : b.bus.status = a.bus.status
  wait : a.bus.status = .fairwait → b.bus.wi = a.bus.wi
  firstPending : a.bus.toSendSize ≠ 0
  secondPending : b.bus.toSendSize ≠ 0

/-- The nodes are alike, and both have started to send or both wait behind the collision. -/
structure LockStep (c : Contention) : Prop where
  alike : Alike c.first c.second
  phase : c.first.bus.status = .sending ∨
    (c.first.bus.status = .collision ∨ c.first.bus.status = .fairwait) ∧
      c.first.sender = none ∧ c.second.sender = none

theorem SameSetup.both {bus bus' other other' : Bus} (h : SameSetup bus other)
    (hbus : SameSetup bus bus') (hother : SameSetup other other') : SameSetup bus' other' :=
  ⟨hother.1.trans (h.1.trans hbus.1.symm), hother.2.1.trans (h.2.1.trans hbus.2.1.symm),
    hother.2.2.trans (h.2.2.trans hbus.2.2.symm)⟩

/-! ## One node -/

section OneNode

variable {n : Node}

/-- A byte behind a collision only stores the time. -/
theorem feed_collision (h : n.bus.status = .collision) (data : UInt16) :
    (n.feed data).bus.status = .collision ∧ (n.feed data).bus.lastBusActivity = n.now ∧
      (n.feed data).bus.toSendSize = n.bus.toSendSize := by
  unfold Node.feed
  rw [emit_bus]
  have hcase := recByte_case n.bus n.now data
  generalize (n.bus.ubOutRecByte n.now data).1 = bus,
    (n.bus.ubOutRecByte n.now data).2 = obs at hcase ⊢
  cases hcase with
  | polled hst hi | disturbed hst hi | echoed hst hi hw => exact ⟨h, rfl, rfl⟩
  | collides hst hi | begins hst | outside hst | inside hst => simp [h] at hst

theorem update_collision (h : n.bus.status = .collision)
    (he : n.bus.isSliceExceed n.now = true) (rand : UInt8) :
    (n.update rand).bus = { n.bus with
      wi := (n.bus.getFairwaitConfCycles : ℤ), status := .fairwait, lastBusActivity := n.now } := by
  simp [Node.update, Bus.ubOutUpdateState, h, he]

theorem update_fairwait (h : n.bus.status = .fairwait)
    (he : n.bus.isSliceExceed n.now = true) (rand : UInt8) :
    (n.update rand).bus = { n.bus with status := .idle, lastBusActivity := n.now } := by
  simp [Node.update, Bus.ubOutUpdateState, h, he]

theorem update_unexceeded (he : n.bus.isSliceExceed n.now = false) (rand : UInt8) :
    (n.update rand).bus = n.bus := by
  simp [Node.update, Bus.ubOutUpdateState, he]

/-- The call that `ub_manage_connection` makes on an idle bus sets the status. -/
theorem manageConnection_idle (received : Bytes) (rand : UInt8) (hook : Node.SendOnIdle)
    {m : Node} (hm : (if n.bus.interrupt then n else n.tryReceive received).update rand = m)
    (hidle : m.bus.status = .idle) (hpending : m.bus.toSendSize ≠ 0) :
    (n.manageConnection received rand hook).bus = { m.bus with status := .sending } ∧
      (n.manageConnection received rand hook).time = m.time := by
  have hmanage : n.manage received rand hook =
      m.moveTo (m.bus.toSend.take m.bus.toSendSize) .entry := by
    unfold Node.manage
    simp only [hm, hidle, hpending, if_true, if_false]
  unfold Node.manageConnection
  rw [hmanage]
  simp [Node.advance, Node.sendStep, hidle]

/-- Without an idle bus `ub_manage_connection` returns. -/
theorem manageConnection_waits (received : Bytes) (rand : UInt8) (hook : Node.SendOnIdle)
    {m : Node} (hm : (if n.bus.interrupt then n else n.tryReceive received).update rand = m)
    (hidle : m.bus.status ≠ .idle) (hnone : m.sender = none) :
    (n.manageConnection received rand hook).bus = m.bus ∧
      (n.manageConnection received rand hook).time = m.time ∧
      (n.manageConnection received rand hook).sender = none := by
  have hmanage : n.manage received rand hook = m.emit (m.bus, [.managed 2]) := by
    unfold Node.manage
    simp only [hm, hidle, if_false]
  unfold Node.manageConnection
  rw [hmanage]
  simp [Node.advance, hnone]

theorem received_nil (n : Node) : (if n.bus.interrupt then n else n.tryReceive []) = n :=
  ite_self n

/-- The wait behind a collision begins. -/
theorem manageConnection_collision (h : n.bus.status = .collision) (hnone : n.sender = none)
    (he : n.bus.isSliceExceed n.now = true) (rand : UInt8) (hook : Node.SendOnIdle) :
    (n.manageConnection [] rand hook).bus = { n.bus with
        wi := (n.bus.getFairwaitConfCycles : ℤ), status := .fairwait, lastBusActivity := n.now } ∧
      (n.manageConnection [] rand hook).sender = none := by
  have hup := update_collision h he rand
  obtain ⟨hbus, -, hsender⟩ := manageConnection_waits (m := n.update rand) [] rand hook
    (by rw [received_nil]) (by simp [hup]) hnone
  exact ⟨hbus.trans hup, hsender⟩

/-- The wait ends, and the packet is sent in the same call. -/
theorem manageConnection_fairwait (h : n.bus.status = .fairwait)
    (hpending : n.bus.toSendSize ≠ 0) (he : n.bus.isSliceExceed n.now = true) (rand : UInt8)
    (hook : Node.SendOnIdle) : (n.manageConnection [] rand hook).bus.status = .sending := by
  have hup := update_fairwait h he rand
  obtain ⟨hbus, -⟩ := manageConnection_idle (m := n.update rand) [] rand hook
    (by rw [received_nil]) (by rw [hup]) (by rw [hup]; exact hpending)
  rw [hbus]

end OneNode

/-! ## Two nodes -/

section TwoNodes

variable {a b : Node}

theorem Alike.now (h : Alike a b) : b.now = a.now := by
  unfold Node.now
  rw [h.time]

/-- The slice of one node is exceeded when that of the other is. -/
theorem Alike.exceed (h : Alike a b) :
    b.bus.isSliceExceed b.now = a.bus.isSliceExceed a.now := by
  have hcycles : b.bus.sliceCycles = a.bus.sliceCycles := by
    unfold Bus.sliceCycles
    rw [h.status, h.setup.2.2]
    split
    next hwait => rw [h.wait hwait]
    next => rfl
  unfold Bus.isSliceExceed
  rw [h.now, h.last, hcycles, h.setup.2.1]

theorem Alike.feed (h : Alike a b) (hs : a.bus.status = .collision) (data : UInt16) :
    Alike (a.feed data) (b.feed data) := by
  obtain ⟨hsa, hla, hpa⟩ := feed_collision hs data
  obtain ⟨hsb, hlb, hpb⟩ := feed_collision (h.status.trans hs) data
  exact {
    setup := h.setup.both (recByte_case a.bus a.now data).sameSetup
      (recByte_case b.bus b.now data).sameSetup
    time := h.time
    last := by rw [hla, hlb, h.now]
    status := hsb.trans hsa.symm
    wait := fun hwait => absurd (hsa.symm.trans hwait) (by decide)
    firstPending := hpa ▸ h.firstPending
    secondPending := hpb ▸ h.secondPending }

/-- Bytes read in polled mode, all behind the collision. -/
theorem Alike.tryReceive (h : Alike a b) (received : Bytes)
    (harrive : received = [] ∨ a.bus.status = .collision) :
    Alike (a.tryReceive received) (b.tryReceive received) ∧
      (a.tryReceive received).bus.status = a.bus.status ∧
      (a.tryReceive received).sender = a.sender ∧ (b.tryReceive received).sender = b.sender := by
  induction received generalizing a b with
  | nil => exact ⟨h, rfl, rfl, rfl⟩
  | cons byte rest ih =>
    have hs : a.bus.status = .collision := harrive.resolve_left (List.cons_ne_nil _ _)
    have hfed := (feed_collision hs byte.toUInt16).1
    obtain ⟨halike, hstatus, hfirst, hsecond⟩ := ih (h.feed hs byte.toUInt16) (.inr hfed)
    exact ⟨halike, hstatus.trans (hfed.trans hs.symm), hfirst, hsecond⟩

/-- **`rand` is not read**: an update of both nodes behind the collision leaves them alike, for
any two random bytes. -/
theorem Alike.update (h : Alike a b)
    (hs : a.bus.status = .collision ∨ a.bus.status = .fairwait) (ra rb : UInt8) :
    Alike (a.update ra) (b.update rb) ∧
      ((a.update ra).bus.status = .idle ∨ (a.update ra).bus.status = .collision ∨
        (a.update ra).bus.status = .fairwait) := by
  have hcycles : b.bus.getFairwaitConfCycles = a.bus.getFairwaitConfCycles := by
    unfold Bus.getFairwaitConfCycles Bus.hasCfg
    rw [h.setup.1]
  cases he : a.bus.isSliceExceed a.now with
  | false =>
    have hea := update_unexceeded he ra
    have heb := update_unexceeded (h.exceed.trans he) rb
    refine ⟨⟨?_, h.time, ?_, ?_, ?_, ?_, ?_⟩, ?_⟩ <;> simp only [hea, heb]
    exacts [h.setup, h.last, h.status, h.wait, h.firstPending, h.secondPending, .inr hs]
  | true =>
    rcases hs with hs | hs
    · have hea := update_collision hs he ra
      have heb := update_collision (h.status.trans hs) (h.exceed.trans he) rb
      refine ⟨⟨?_, h.time, ?_, ?_, ?_, ?_, ?_⟩, ?_⟩ <;> simp only [hea, heb, h.now, hcycles]
      exacts [h.setup, fun _ => trivial, h.firstPending, h.secondPending, by decide]
    · have hea := update_fairwait hs he ra
      have heb := update_fairwait (h.status.trans hs) (h.exceed.trans he) rb
      refine ⟨⟨?_, h.time, ?_, ?_, ?_, ?_, ?_⟩, ?_⟩ <;> simp only [hea, heb, h.now]
      exacts [h.setup, (by simp), h.firstPending, h.secondPending, by decide]

/-- Both nodes call `ub_manage_connection`. -/
theorem Alike.manageConnection (h : Alike a b)
    (hs : a.bus.status = .collision ∨ a.bus.status = .fairwait)
    (hfirst : a.sender = none) (hsecond : b.sender = none) {received : Bytes}
    (harrive : received = [] ∨ a.bus.status = .collision) (ra rb : UInt8)
    (hookA hookB : Node.SendOnIdle) :
    LockStep ⟨a.manageConnection received ra hookA, b.manageConnection received rb hookB⟩ := by
  have hreceived : Alike (if a.bus.interrupt then a else a.tryReceive received)
      (if b.bus.interrupt then b else b.tryReceive received) ∧
      (if a.bus.interrupt then a else a.tryReceive received).bus.status = a.bus.status ∧
      (if a.bus.interrupt then a else a.tryReceive received).sender = none ∧
      (if b.bus.interrupt then b else b.tryReceive received).sender = none := by
    rw [h.setup.interrupt]
    split
    · exact ⟨h, rfl, hfirst, hsecond⟩
    · obtain ⟨halike, hstatus, heqa, heqb⟩ := h.tryReceive received harrive
      exact ⟨halike, hstatus, heqa.trans hfirst, heqb.trans hsecond⟩
  obtain ⟨halike, hstatus, hnonea, hnoneb⟩ := hreceived
  obtain ⟨hup, hphase⟩ := halike.update (hstatus ▸ hs) ra rb
  generalize hma : (if a.bus.interrupt then a else a.tryReceive received).update ra = ma
    at hup hphase
  generalize hmb : (if b.bus.interrupt then b else b.tryReceive received).update rb = mb at hup
  have hma' : ma.sender = none := hma ▸ hnonea
  have hmb' : mb.sender = none := hmb ▸ hnoneb
  rcases hphase with hidle | hwaits
  · obtain ⟨hbusa, htimea⟩ := manageConnection_idle received ra hookA hma hidle hup.firstPending
    obtain ⟨hbusb, htimeb⟩ := manageConnection_idle received rb hookB hmb
      (hup.status.trans hidle) hup.secondPending
    refine ⟨⟨?_, ?_, ?_, ?_, ?_, ?_, ?_⟩, .inl ?_⟩ <;> simp only [hbusa, hbusb, htimea, htimeb]
    exacts [hup.setup, hup.time, hup.last, (by simp), hup.firstPending,
      hup.secondPending]
  · have hne : ma.bus.status ≠ .idle := by
      rcases hwaits with hw | hw <;> rw [hw] <;> decide
    obtain ⟨hbusa, htimea, hsa⟩ := manageConnection_waits received ra hookA hma hne hma'
    obtain ⟨hbusb, htimeb, hsb⟩ := manageConnection_waits received rb hookB hmb
      (hup.status ▸ hne) hmb'
    refine ⟨⟨?_, ?_, ?_, ?_, ?_, ?_, ?_⟩, .inr ⟨?_, hsa, hsb⟩⟩ <;>
      simp only [hbusa, hbusb, htimea, htimeb]
    exacts [hup.setup, hup.time, hup.last, hup.status, hup.wait, hup.firstPending,
      hup.secondPending, hwaits]

end TwoNodes

/-! ## The contention -/

section Contending

variable {c c' : Contention}

/-- Bytes arrive only before the wait. -/
theorem LockStep.collision_of_transmits (h : LockStep c) (hopen : ¬ c.decided)
    (ht : c.first.transmits ∨ c.second.transmits) : c.first.bus.status = .collision := by
  have hfirst : c.first.bus.status ≠ .sending := fun hs => hopen (.inl hs)
  have hsecond : c.second.bus.status ≠ .sending := fun hs => hopen (.inr hs)
  rcases ht with (hs | hs) | (hs | hs)
  · exact absurd hs hfirst
  · exact hs
  · exact absurd hs hsecond
  · exact h.alike.status ▸ hs

/-- Both contenders go on alike. -/
theorem LockStep.step (h : LockStep c) {act : ContentionAction} (hstep : c.step act = some c') :
    LockStep c' := by
  unfold Contention.step at hstep
  split at hstep
  next => cases hstep
  next hopen =>
    obtain ⟨hs, hfirst, hsecond⟩ := h.phase.resolve_left fun hs => hopen (.inl hs)
    cases act with
    | tick us =>
      cases hstep
      obtain ⟨hsetup, htime, hlast, hstatus, hwait, hp₁, hp₂⟩ := h.alike
      refine ⟨⟨hsetup, ?_, hlast, hstatus, hwait, hp₁, hp₂⟩, .inr ⟨hs, hfirst, hsecond⟩⟩
      simp only [htime]
    | byte data =>
      simp only at hstep
      split at hstep
      next ht =>
        cases hstep
        have hcoll := h.collision_of_transmits hopen ht
        exact ⟨h.alike.feed hcoll data,
          .inr ⟨.inl (feed_collision hcoll data).1, hfirst, hsecond⟩⟩
      next => cases hstep
    | manage received ra rb hookA hookB =>
      simp only at hstep
      split at hstep
      next harrive =>
        cases hstep
        exact h.alike.manageConnection hs hfirst hsecond
          (harrive.imp_right (h.collision_of_transmits hopen)) ra rb hookA hookB
      next => cases hstep

theorem LockStep.sending_iff (h : LockStep c) :
    c.first.bus.status = .sending ↔ c.second.bus.status = .sending := by
  rw [h.alike.status]

theorem LockStep.not_decided (h : LockStep c) (hs : c.first.bus.status ≠ .sending) :
    ¬ c.decided := by
  rintro (hfirst | hsecond)
  · exact hs hfirst
  · exact hs (h.sending_iff.mpr hsecond)

end Contending

/-- Both nodes have got into the collision state at one instant, with a packet to send each, and
no call runs.  The fields have the sizes of their C types. -/
structure Collided (c : Contention) : Prop where
  alike : Alike c.first c.second
  status : c.first.bus.status = .collision
  first_returned : c.first.sender = none
  second_returned : c.second.sender = none
  byteTime_lt : c.first.bus.byteTimeUs < 2 ^ 16
  timeout_lt : c.first.bus.packetTimeout < 256
  last_lt : c.first.bus.lastBusActivity < 2 ^ 32

/-- A byte that is the echo for neither of two senders puts both into the collision state. -/
theorem feed_collides {n : Node} (h : n.bus.status = .sending) (hi : n.bus.interrupt = true)
    (hwi : n.bus.wi ≠ data.toNat) :
    (n.feed data).bus = { n.bus with status := .collision, lastBusActivity := n.now } := by
  unfold Node.feed
  rw [emit_bus]
  have hcase := recByte_case n.bus n.now data
  generalize (n.bus.ubOutRecByte n.now data).1 = bus,
    (n.bus.ubOutRecByte n.now data).2 = obs at hcase ⊢
  cases hcase with
  | collides hst hi' => rfl
  | echoed hst hi' hw => exact absurd hw hwi
  | polled hst hi' => simp [hi] at hi'
  | disturbed hst hi' | begins hst | outside hst | inside hst => simp [h] at hst

theorem collided_of_byte {a b : Node} (hsetup : SameSetup a.bus b.bus) (htime : b.time = a.time)
    (hi : a.bus.interrupt = true) (ha : a.bus.status = .sending) (hb : b.bus.status = .sending)
    (hpa : a.bus.toSendSize ≠ 0) (hpb : b.bus.toSendSize ≠ 0) (hna : a.sender = none)
    (hnb : b.sender = none) (hbyte : a.bus.byteTimeUs < 2 ^ 16)
    (htimeout : a.bus.packetTimeout < 256) (hwa : a.bus.wi ≠ data.toNat)
    (hwb : b.bus.wi ≠ data.toNat) : Collided ⟨a.feed data, b.feed data⟩ := by
  have hfa := feed_collides ha hi hwa
  have hfb := feed_collides hb (hsetup.interrupt.trans hi) hwb
  have hnow : b.now = a.now := by
    unfold Node.now
    rw [htime]
  refine ⟨⟨?_, htime, ?_, ?_, ?_, ?_, ?_⟩, ?_, hna, hnb, ?_, ?_, ?_⟩ <;> simp only [hfa, hfb, hnow]
  exacts [hsetup, (by simp), hpa, hpb, hbyte, htimeout, now_lt a]

theorem Collided.lockStep (h : Collided c) : LockStep c :=
  ⟨h.alike, .inr ⟨.inl h.status, h.first_returned, h.second_returned⟩⟩

/-- Some random bytes, at some instants, let one node start to send and not the other. -/
def StepsBack (c : Contention) : Prop :=
  ∃ acts c', run Contention.step c acts = some c' ∧
    ¬ (c'.first.bus.status = .sending ↔ c'.second.bus.status = .sending)

theorem Collided.not_stepsBack (h : Collided c) : ¬ StepsBack c := by
  rintro ⟨acts, c', hrun, hapart⟩
  have hlock : LockStep c' :=
    run_invariant_all (fun _ _ _ hc hstep => hc.step hstep) h.lockStep hrun
  exact hapart hlock.sending_iff

/-- Two nodes that are alike and do not send: time passes until the slice of both is exceeded,
and both call `ub_manage_connection`. -/
theorem exists_manage (h : LockStep c) (hopen : ¬ c.decided)
    (hbyte : c.first.bus.byteTimeUs < 2 ^ 16) (htimeout : c.first.bus.packetTimeout < 256)
    (hlast : c.first.bus.lastBusActivity < 2 ^ 32) (ra rb : UInt8) :
    ∃ (us : ℕ) (n : Node) (c' : Contention), n.bus = c.first.bus ∧ n.sender = c.first.sender ∧
      n.bus.isSliceExceed n.now = true ∧
      run Contention.step c [.tick us, .manage [] ra rb .null .null] = some c' ∧
      c'.first = n.manageConnection [] ra .null ∧ LockStep c' := by
  obtain ⟨us, hus⟩ := exists_sliceExceed hbyte htimeout hlast c.first.time
  set c₁ : Contention :=
    ⟨{ c.first with time := c.first.time + us }, { c.second with time := c.second.time + us }⟩
  have htick : c.step (.tick us) = some c₁ := by
    unfold Contention.step
    rw [if_neg hopen]
  have hmanage : c₁.step (.manage [] ra rb .null .null) =
      some ⟨c₁.first.manageConnection [] ra .null, c₁.second.manageConnection [] rb .null⟩ := by
    have hopen₁ : ¬ c₁.decided := hopen
    have harrive : c₁.mayArrive [] := .inl rfl
    unfold Contention.step
    rw [if_neg hopen₁]
    simp only [harrive, if_true]
  refine ⟨us, c₁.first, _, rfl, rfl, hus, ?_, rfl, (h.step htick).step hmanage⟩
  exact (run_cons_eq_some _ _ _ _ _).mpr
    ⟨c₁, htick, (run_cons_eq_some _ _ _ _ _).mpr ⟨_, hmanage, rfl⟩⟩

/-- Whatever the random bytes, two nodes that collided can start to send at one instant. -/
theorem Collided.starts_together (h : Collided c) (ra rb : ℕ → UInt8) :
    ∃ us₁ us₂ c', run Contention.step c
        [.tick us₁, .manage [] (ra 0) (rb 0) .null .null,
          .tick us₂, .manage [] (ra 1) (rb 1) .null .null] = some c' ∧
      c'.first.bus.status = .sending ∧ c'.second.bus.status = .sending := by
  have hopen : ¬ c.decided := h.lockStep.not_decided (by simp [h.status])
  obtain ⟨us₁, n₁, c₁, hbus₁, hs₁, he₁, hrun₁, hfirst₁, hlock₁⟩ :=
    exists_manage h.lockStep hopen h.byteTime_lt h.timeout_lt h.last_lt (ra 0) (rb 0)
  obtain ⟨hwait, -⟩ := manageConnection_collision (hbus₁ ▸ h.status)
    (hs₁.trans h.first_returned) he₁ (ra 0) .null
  rw [← hfirst₁, hbus₁] at hwait
  have hopen₁ : ¬ c₁.decided := hlock₁.not_decided (by simp [hwait])
  obtain ⟨us₂, n₂, c₂, hbus₂, -, he₂, hrun₂, hfirst₂, hlock₂⟩ :=
    exists_manage hlock₁ hopen₁ (by rw [hwait]; exact h.byteTime_lt)
      (by rw [hwait]; exact h.timeout_lt) (by rw [hwait]; exact now_lt n₁) (ra 1) (rb 1)
  have hsending := manageConnection_fairwait (n := n₂) (by rw [hbus₂, hwait])
    (by rw [hbus₂, hwait]; exact h.alike.firstPending) he₂ (ra 1) .null
  rw [← hfirst₂] at hsending
  exact ⟨us₁, us₂, c₂, run_append_eq_some hrun₁ hrun₂, hsending, hlock₂.sending_iff.mp hsending⟩

/-- **No random step back.**  Two nodes that collided start to send at the same instant, whatever
`rand` returns to each of them and whenever they are updated; and they do start.
SOURCE: ub.c:40-53, 171-228, 469-503 -/
theorem no_step_back (c : Contention) (h : Collided c) :
    ¬ StepsBack c ∧
      ∀ ra rb : ℕ → UInt8, ∃ us₁ us₂ c', run Contention.step c
          [.tick us₁, .manage [] (ra 0) (rb 0) .null .null,
            .tick us₂, .manage [] (ra 1) (rb 1) .null .null] = some c' ∧
        c'.first.bus.status = .sending ∧ c'.second.bus.status = .sending :=
  ⟨h.not_stepsBack, h.starts_together⟩

/-- A node whose packet of one byte has been sent and not yet been echoed. -/
def contender (value : UInt8) : Node :=
  { bus :=
      { toSend := [value], toSendSize := 1, status := .sending, byteTimeUs := 10,
        packetTimeout := 3, cfg := cfgReadWithInterrupt, lastBusActivity := 100,
        wi := (value.toNat : ℤ) }
    time := 105
    sender := none
    trace := [] }

/-- The bytes 7 and 8 make a third one on the wire. -/
def contenders : Contention := ⟨(contender 7).feed 0, (contender 8).feed 0⟩

theorem collided_contenders : Collided contenders :=
  collided_of_byte (a := contender 7) (b := contender 8) ⟨rfl, rfl, rfl⟩ rfl (by decide) rfl rfl
    (by decide) (by decide) rfl rfl (by decide) (by decide) (by decide) (by decide)

/-- The two nodes of `contenders` have collided, and neither steps back. -/
theorem no_step_back_contenders : Collided contenders ∧ ¬ StepsBack contenders :=
  ⟨collided_contenders, (no_step_back contenders collided_contenders).1⟩

/-- 30 microseconds after the collision both begin to wait, and one byte time later both send,
here with the random bytes 0 and 2 for the first node and 1 and 0 for the second. -/
theorem contenders_collide_again :
    ¬ StepsBack contenders ∧
      (run Contention.step contenders
        [.tick 30, .manage [] 0 1 .null .null, .tick 10, .manage [] 2 0 .null .null]).map
          (fun c => (c.first.bus.status, c.second.bus.status)) = some (.sending, .sending) :=
  ⟨collided_contenders.not_stepsBack, by decide +kernel⟩

end Uartbus.Analysis
