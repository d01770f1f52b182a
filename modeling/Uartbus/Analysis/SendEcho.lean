import Uartbus.Analysis.CarrierSense

/-!
# A packet and its echo

What `ub_send_packet` knows of the echo of its packet, with received bytes, clock advances and
calls of `ub_out_update_state` between any two of its steps.

`wi` holds the byte whose echo is awaited and `~0` when none is.  The invariant `CallInv` says
so of the bytes seen since the first assignment of `wi`; from it follows that a return of 0
means a faithful echo (`returned_zero_echo`).

For `ub_out_update_state` a `~0` in `wi` means that the packet is complete, but it is also what
the gap between two bytes looks like.  The packet is taken as sent too early exactly when a
slice ends in such a gap (`cleared_in_gap`), and otherwise it is not (`cleared_means_sent`).
-/

set_option autoImplicit false

namespace Uartbus.Analysis

open Lib Interface Model

variable {data : UInt16} {r : Bus × List Observation} {obs : List Observation} {packet : Bytes}
  {point q : SendPoint} {bus bus' : Bus} {n' : Node} {now i : ℕ} {a : LinkAction} {cfg : UInt8}

/-- What an observer keeps of the observations so far. -/
structure Monitor where
  /-- The packet of the last call of `ub_send_packet` that found the bus idle. -/
  packet : Bytes
  /-- The bytes passed to `do_send_byte` since the last `send_start`. -/
  passed : Bytes
  /-- The bytes fed since the last `send_start`. -/
  fedSinceStart : List UInt16
  /-- In the last call that found the bus idle, `wi` has been set to a byte of the packet. -/
  expecting : Bool
  /-- The bytes fed since the first such assignment. -/
  echoed : List UInt16
  /-- A collision event was emitted since the last call that found the bus idle. -/
  collided : Bool
  deriving DecidableEq, Repr

namespace Monitor

def initial : Monitor :=
  { packet := [], passed := [], fedSinceStart := [], expecting := false, echoed := [],
    collided := false }

/-- One more observation. -/
def observe (m : Monitor) : Observation → Monitor
  | .accepted packet =>
    { m with packet := packet, expecting := false, echoed := [], collided := false }
  | .event .sendStart => { m with passed := [], fedSinceStart := [] }
  | .event .collisionStart | .event .collisionEnd => { m with collided := true }
  | .expect _ => { m with expecting := true }
  | .passed b => { m with passed := m.passed ++ [b] }
  | .fed data =>
    { m with
      fedSinceStart := m.fedSinceStart ++ [data]
      echoed := if m.expecting then m.echoed ++ [data] else m.echoed }
  | _ => m

end Monitor

def monitor (obs : List Observation) : Monitor := obs.foldl Monitor.observe Monitor.initial

theorem monitor_append (l m : List Observation) :
    monitor (l ++ m) = m.foldl Monitor.observe (monitor l) := by
  simp [monitor]

/-- The packet was passed on from its first byte and has been received in full. -/
def Monitor.Sent (m : Monitor) : Prop :=
  m.packet <+: m.passed ∧ m.packet.map UInt8.toUInt16 <:+ m.fedSinceStart

/-! ## Positions in the call -/

/-- How often `wi` has been set to a byte of the packet. -/
def assigned : SendPoint → ℕ
  | .loopHead i | .pollStatus i | .pollWi i | .pollUpdate i | .statusCheck i | .assignWi i => i
  | .callSend i | .inSend i | .inReceive i => i + 1
  | _ => 0

/-- How many bytes have been passed to `do_send_byte`. -/
def handed : SendPoint → ℕ
  | .loopHead i | .pollStatus i | .pollWi i | .pollUpdate i | .statusCheck i | .assignWi i
  | .callSend i => i
  | .inSend i | .inReceive i => i + 1
  | _ => 0

/-- The start event has been emitted. -/
def afterStart : SendPoint → Bool
  | .entry | .checked | .statusSet | .activityUpdated => false
  | _ => true

/-- `wi` has been set to `~0`. -/
def inLoop : SendPoint → Bool
  | .entry | .checked | .statusSet | .activityUpdated | .started => false
  | _ => true

/-- Behind a polling loop and before the next assignment of `wi`. -/
def behindPoll : SendPoint → Bool
  | .statusCheck _ | .assignWi _ => true
  | _ => false

/-- After `k` assignments of `wi`: all bytes are matched and none is awaited, or the last one is
still awaited. -/
def Matched (packet : Bytes) (k : ℕ) (wi : ℤ) (echoed : List UInt16) : Prop :=
  (wi = -1 ∧ echoed = (packet.take k).map UInt8.toUInt16) ∨
    ∃ j v, k = j + 1 ∧ packet[j]? = some v ∧ wi = v.toNat ∧
      echoed = (packet.take j).map UInt8.toUInt16

/-- What holds while a call that found the bus idle runs. -/
structure CallInv (packet : Bytes) (point : SendPoint) (bus : Bus) (m : Monitor) : Prop where
  samePacket : m.packet = packet
  bound : assigned point ≤ packet.length
  inside : ∀ i, point = .assignWi i → i < packet.length
  expecting : m.expecting = decide (0 < assigned point)
  nothingYet : m.expecting = false → m.echoed = []
  passed : afterStart point = true → m.passed = packet.take (handed point)
  window : m.echoed <:+ m.fedSinceStart
  checked : point = .checked →
    bus.status ≠ .sending ∧ bus.status ≠ .collision ∧ m.collided = false
  quiet : bus.status = .sending → m.collided = false
  matched : bus.status = .sending → inLoop point = true →
    Matched packet (assigned point) bus.wi m.echoed
  gap : bus.status = .sending → behindPoll point = true → bus.wi = -1

/-! ## What comes from outside the call -/

section Outside

variable {packet : Bytes} {point : SendPoint} {bus bus' : Bus} {now : ℕ} {m : Monitor}
  {obs : List Observation}

/-- A byte of the packet matches the awaited one. -/
theorem Matched.echo {k : ℕ} {wi : ℤ} {echoed : List UInt16} (h : Matched packet k wi echoed)
    (hw : wi = data.toNat) : 0 < k ∧ Matched packet k (-1) (echoed ++ [data]) := by
  rcases h with ⟨hwi, -⟩ | ⟨j, v, rfl, hv, hwi, hecho⟩
  · rw [hwi] at hw
    omega
  · refine ⟨Nat.succ_pos j, .inl ⟨rfl, ?_⟩⟩
    have hdata : data = v.toUInt16 := by
      rw [hwi] at hw
      apply UInt16.toNat_inj.mp
      exact_mod_cast hw.symm
    obtain ⟨hj, hget⟩ := List.getElem?_eq_some_iff.mp hv
    rw [List.take_succ_eq_append_getElem hj, List.map_append, hecho, hget, hdata]
    rfl

theorem observe_collisionData (m : Monitor) (bus : Bus) (data : UInt16) :
    (collisionData bus data).foldl Monitor.observe m = m := by
  unfold collisionData
  split <;> rfl

variable (h : CallInv packet point bus m)
include h

/-- What an observer keeps of a call from outside that leaves `sending` alone or ends it. -/
theorem CallInv.outside (bus' : Bus) (m' : Monitor) (hpacket : m'.packet = m.packet)
    (hpassed : m'.passed = m.passed) (hexpect : m'.expecting = m.expecting)
    (hnothing : m.expecting = false → m'.echoed = m.echoed)
    (hwindow : m'.echoed <:+ m'.fedSinceStart)
    (hchecked : point = .checked →
      bus'.status ≠ .sending ∧ bus'.status ≠ .collision ∧ m'.collided = false)
    (hsending : bus'.status = .sending → m'.collided = false ∧
      (inLoop point = true → Matched packet (assigned point) bus'.wi m'.echoed) ∧
      (behindPoll point = true → bus'.wi = -1)) : CallInv packet point bus' m' := by
  refine ⟨hpacket ▸ h.samePacket, h.bound, h.inside, hexpect ▸ h.expecting, ?_, ?_, hwindow,
    hchecked, fun hs => (hsending hs).1, fun hs => (hsending hs).2.1,
    fun hs => (hsending hs).2.2⟩
  · intro he
    rw [hexpect] at he
    rw [hnothing he, h.nothingYet he]
  · intro ha
    rw [hpassed]
    exact h.passed ha

/-- A call from outside that shows no byte and ends in another status than `sending`. -/
theorem CallInv.away (collided : Bool) (hs : bus'.status ≠ .sending)
    (hchecked : point = .checked → bus'.status ≠ .collision ∧ collided = false) :
    CallInv packet point bus' { m with collided := collided } := by
  apply h.outside bus' { m with collided := collided } rfl rfl rfl (fun _ => rfl) h.window
  · intro hp
    exact ⟨hs, hchecked hp⟩
  · intro hsend
    exact absurd hsend hs

/-- What an observer keeps of a fed byte. -/
theorem CallInv.fed (data : UInt16) :
    (m.observe (.fed data)).echoed <:+ (m.observe (.fed data)).fedSinceStart ∧
      (m.expecting = false → (m.observe (.fed data)).echoed = m.echoed) := by
  simp only [Monitor.observe]
  cases he : m.expecting with
  | true =>
    simp only [if_true, Bool.true_eq_false, false_implies, and_true]
    obtain ⟨t, ht⟩ := h.window
    exact ⟨t, by rw [← ht, List.append_assoc]⟩
  | false =>
    simp only [Bool.false_eq_true, if_false, implies_true, and_true]
    rw [h.nothingYet he]
    exact List.nil_suffix

/-- A fed byte that ends the sending or finds it ended. -/
theorem CallInv.fedAway (data : UInt16) (collided : Bool) (hs : bus'.status ≠ .sending)
    (hchecked : point = .checked → bus'.status ≠ .collision ∧ collided = false) :
    CallInv packet point bus' { m.observe (.fed data) with collided := collided } := by
  obtain ⟨hwindow, hnothing⟩ := h.fed data
  apply h.outside bus' { m.observe (.fed data) with collided := collided } rfl rfl rfl hnothing
    hwindow
  · intro hp
    exact ⟨hs, hchecked hp⟩
  · intro hsend
    exact absurd hsend hs

/-- A byte that comes in while a packet is sent is its echo or a collision. -/
theorem RecByteCase.callInv (hcase : RecByteCase bus now data bus' obs)
    (hi : bus.interrupt = true) : CallInv packet point bus' (obs.foldl Monitor.observe m) := by
  have hnot : ∀ {s : UartbusStatus}, bus.status = s → (s = .sending ∨ s = .collision) →
      point ≠ .checked := by
    rintro s hs (rfl | rfl) hp
    · exact (h.checked hp).1 hs
    · exact (h.checked hp).2.1 hs
  cases hcase with
  | polled hs hpoll =>
    rw [hi] at hpoll
    cases hpoll
  | collides hs =>
    rw [List.foldl_append, List.foldl_append, observe_collisionData]
    exact h.fedAway data true (by simp)
      fun hp => absurd hp (hnot hs (.inl rfl))
  | disturbed hs =>
    rw [List.foldl_append, observe_collisionData]
    apply h.fedAway data m.collided
    · simp [hs]
    · exact fun hp => absurd hp (hnot hs (.inr rfl))
  | echoed hs hint hw =>
    obtain ⟨hwindow, hnothing⟩ := h.fed data
    apply h.outside _ (m.observe (.fed data)) rfl rfl rfl hnothing hwindow
    · intro hp
      rcases hs with hs | hs
      · exact absurd hp (hnot hs (.inl rfl))
      · exact absurd hp (hnot hs (.inr rfl))
    · intro hsend
      refine ⟨h.quiet hsend, fun hloop => ?_, fun _ => rfl⟩
      obtain ⟨hpos, hmatched⟩ := (h.matched hsend hloop).echo hw
      have hexp : m.expecting = true := by
        rw [h.expecting]
        exact decide_eq_true hpos
      simp only [Monitor.observe, hexp, if_true]
      exact hmatched
  | begins hs =>
    exact h.fedAway data m.collided (by simp)
      fun hp => ⟨by simp, (h.checked hp).2.2⟩
  | outside hs =>
    apply h.fedAway data m.collided
    · rcases hs with hs | hs <;> simp [hs]
    · exact fun hp => ⟨(h.checked hp).2.1, (h.checked hp).2.2⟩
  | inside hs =>
    apply h.fedAway data m.collided
    · simp [hs]
    · exact fun hp => ⟨by simp [hs], (h.checked hp).2.2⟩

theorem UpdateCase.callInv (hcase : UpdateCase bus now bus' obs) :
    CallInv packet point bus' (obs.foldl Monitor.observe m) := by
  cases hcase with
  | unchanged => exact h
  | endWait | endReceive | connect =>
    exact h.away m.collided (by simp)
      fun hp => ⟨by simp, (h.checked hp).2.2⟩
  | missed hs =>
    exact h.away true (by simp) fun hp => absurd hs (h.checked hp).1
  | success wi hs =>
    exact h.away m.collided (by simp) fun hp => absurd hs (h.checked hp).1
  | endCollision wi hs =>
    exact h.away true (by simp) fun hp => absurd hs (h.checked hp).2.1

theorem predict_callInv :
    CallInv packet point (bus.ubPredictTransmissionStart now).1
      ((bus.ubPredictTransmissionStart now).2.foldl Monitor.observe m) := by
  unfold Bus.ubPredictTransmissionStart
  split
  · exact h.away m.collided (by simp)
      fun hp => ⟨by simp, (h.checked hp).2.2⟩
  · exact h

theorem prewait_callInv (cycles : UInt8) : CallInv packet point (bus.ubPrewait cycles) m := by
  unfold Bus.ubPrewait
  split
  · exact h.away m.collided (by simp)
      fun hp => ⟨by simp, (h.checked hp).2.2⟩
  · exact h

end Outside

/-! ## The steps of the call -/

section Steps

variable {packet : Bytes} {point q : SendPoint} {bus : Bus} {m : Monitor}

/-- A step inside the loop that touches nothing. -/
theorem CallInv.move (h : CallInv packet point bus m) (hassigned : assigned q = assigned point)
    (hhanded : handed q = handed point) (hstart : afterStart point = true)
    (hloop : inLoop point = true) (hq : q ≠ .checked)
    (hinside : ∀ i, q = .assignWi i → i < packet.length)
    (hgap : bus.status = .sending → behindPoll q = true → bus.wi = -1) :
    CallInv packet q bus m := by
  refine ⟨h.samePacket, hassigned ▸ h.bound, hinside, hassigned ▸ h.expecting, h.nothingYet, ?_,
    h.window, fun hc => absurd hc hq, h.quiet, ?_, hgap⟩
  · intro _
    rw [hhanded]
    exact h.passed hstart
  · intro hs _
    rw [hassigned]
    exact h.matched hs hloop

/-- The call has found the bus idle. -/
theorem callInv_accepted (packet : Bytes) (m : Monitor) (hidle : bus.status = .idle) :
    CallInv packet .checked bus (m.observe (.accepted packet)) := by
  refine ⟨rfl, Nat.zero_le _, by simp, rfl, fun _ => rfl, by simp [afterStart],
    List.nil_suffix, ?_, fun _ => rfl, by simp [inLoop], by simp [behindPoll]⟩
  intro _
  exact ⟨by simp [hidle], by simp [hidle], rfl⟩

/-- `bus->status = ub_stat_sending`. -/
theorem CallInv.statusSet (h : CallInv packet .checked bus m) :
    CallInv packet .statusSet { bus with status := .sending } m :=
  ⟨h.samePacket, h.bound, by simp, h.expecting, h.nothingYet, by simp [afterStart], h.window,
    by simp, fun _ => (h.checked rfl).2.2, by simp [inLoop], by simp [behindPoll]⟩

theorem CallInv.activityUpdated (h : CallInv packet .statusSet bus m) (now : ℕ) :
    CallInv packet .activityUpdated (bus.updateLastActivityNow now) m :=
  ⟨h.samePacket, h.bound, by simp, h.expecting, h.nothingYet, by simp [afterStart], h.window,
    by simp, h.quiet, by simp [inLoop], by simp [behindPoll]⟩

/-- The `send_start` event. -/
theorem CallInv.started (h : CallInv packet .activityUpdated bus m) :
    CallInv packet .started bus (m.observe (.event .sendStart)) := by
  have hnothing : m.echoed = [] := h.nothingYet h.expecting
  refine ⟨h.samePacket, h.bound, by simp, h.expecting, h.nothingYet, fun _ => ?_, ?_, by simp,
    h.quiet, by simp [inLoop], by simp [behindPoll]⟩
  · simp [Monitor.observe, handed]
  · simp [Monitor.observe, hnothing]

/-- `bus->wi = ~0`. -/
theorem CallInv.loopHead (h : CallInv packet .started bus m) :
    CallInv packet (.loopHead 0) { bus with wi := -1 } m := by
  have hnothing : m.echoed = [] := h.nothingYet h.expecting
  refine ⟨h.samePacket, h.bound, by simp, h.expecting, h.nothingYet, fun _ => h.passed rfl,
    h.window, by simp, h.quiet, fun _ _ => .inl ⟨rfl, ?_⟩, by simp [behindPoll]⟩
  simp [hnothing, assigned]

/-- `bus->wi = val`. -/
theorem CallInv.callSend (h : CallInv packet (.assignWi i) bus m) :
    CallInv packet (.callSend i) { bus with wi := ((packet.getD i 0).toNat : ℤ) }
      (m.observe (.expect (packet.getD i 0))) := by
  have hi := h.inside i rfl
  have hget : packet[i]? = some (packet.getD i 0) := by
    rw [List.getD_eq_getElem?_getD, List.getElem?_eq_getElem hi, Option.getD_some]
  refine ⟨h.samePacket, hi, by simp, ?_, by simp [Monitor.observe], fun _ => h.passed rfl,
    h.window, by simp, h.quiet, fun hs _ => ?_, by simp [behindPoll]⟩
  · simp [Monitor.observe, assigned]
  · -- nothing is awaited before the assignment, so everything before it is matched
    rcases h.matched hs rfl with ⟨-, hecho⟩ | ⟨j, v, -, -, hwi, -⟩
    · exact .inr ⟨i, packet.getD i 0, rfl, hget, rfl, hecho⟩
    · have := h.gap hs rfl
      omega

/-- The call of `do_send_byte`. -/
theorem CallInv.inSend (h : CallInv packet (.callSend i) bus m) :
    CallInv packet (.inSend i) bus (m.observe (.passed (packet.getD i 0))) := by
  have hi : i < packet.length := h.bound
  refine ⟨h.samePacket, h.bound, by simp, h.expecting, h.nothingYet, fun _ => ?_, h.window,
    by simp, h.quiet, h.matched, by simp [behindPoll]⟩
  have hold : m.passed = packet.take i := h.passed rfl
  simp only [Monitor.observe, handed, hold]
  rw [List.take_succ_eq_append_getElem hi, List.getD_eq_getElem?_getD,
    List.getElem?_eq_getElem hi, Option.getD_some]

/-- Behind the last polling loop, with the status still `sending`. -/
theorem CallInv.complete (h : CallInv packet (.statusCheck i) bus m) (hs : bus.status = .sending)
    (hi : ¬ i < packet.length) :
    i = packet.length ∧ m.echoed = packet.map UInt8.toUInt16 ∧ m.passed = packet ∧
      m.collided = false := by
  have hbound : i ≤ packet.length := h.bound
  have hlen : i = packet.length := by omega
  have hpassed : m.passed = packet.take i := h.passed rfl
  refine ⟨hlen, ?_, by rw [hpassed, hlen, List.take_length], h.quiet hs⟩
  rcases h.matched hs rfl with ⟨-, hecho⟩ | ⟨j, v, -, -, hwi, -⟩
  · have hall : packet.take i = packet := by rw [hlen, List.take_length]
    simpa only [assigned, hall] using hecho
  · have := h.gap hs rfl
    omega

end Steps

/-! ## Runs -/

/-- What the node has shown since it had shown `base`. -/
def shownSince (base : List Observation) (n : Node) : List Observation := n.obs.drop base.length

/-- The invariant behind a return of 0: what an observer who came in after `base` knows of the
running call. -/
structure EchoInv (base : List Observation) (n : Node) : Prop where
  interrupt : n.bus.interrupt = true
  since : base <+: n.obs
  call : ∀ packet point, n.sender = some (packet, point) → point ≠ .entry →
    CallInv packet point n.bus (monitor (shownSince base n))

section Runs

variable {base : List Observation} {n : Node}

theorem RecByteCase.not_cleared (h : RecByteCase bus now data bus' obs) : .cleared ∉ obs := by
  have hdata : .cleared ∉ collisionData bus data := by
    unfold collisionData
    split <;> simp
  cases h with
  | collides | disturbed => simp [hdata]
  | polled | echoed | begins | outside | inside => simp

theorem moveTo_eq_emit_moveTo (n : Node) (packet : Bytes) (q : SendPoint) :
    n.moveTo packet q = (n.emit (n.bus, [])).moveTo packet q := by
  simp [Node.emit]

theorem statToInt8_ne_zero {stat : UInt8} (h : stat ≠ 0) : Node.statToInt8 stat ≠ 0 := by
  have hpos : stat.toNat ≠ 0 := fun h0 => h (UInt8.toNat_inj.mp h0)
  have hlt := stat.toNat_lt
  unfold Node.statToInt8
  split <;> omega

variable (h : EchoInv base n)
include h

/-- The observer sees `obs` next. -/
theorem EchoInv.next {m : Node} (hsetup : SameSetup n.bus m.bus) (hobs : m.obs = n.obs ++ obs)
    (hcall : ∀ packet point, m.sender = some (packet, point) → point ≠ .entry →
      CallInv packet point m.bus (obs.foldl Monitor.observe (monitor (shownSince base n)))) :
    EchoInv base m := by
  have hshown : shownSince base m = shownSince base n ++ obs := by
    unfold shownSince
    rw [hobs, List.drop_append_of_le_length h.since.length_le]
  refine ⟨hsetup.interrupt.trans h.interrupt, ?_, ?_⟩
  · rw [hobs]
    exact h.since.trans (List.prefix_append _ _)
  · rw [hshown, monitor_append]
    exact hcall

theorem EchoInv.emit (hsetup : SameSetup n.bus r.1)
    (hcall : ∀ packet point, CallInv packet point n.bus (monitor (shownSince base n)) →
      CallInv packet point r.1 (r.2.foldl Monitor.observe (monitor (shownSince base n)))) :
    EchoInv base (n.emit r) :=
  h.next hsetup (emit_obs n r) fun packet point hs hp =>
    hcall packet point (h.call packet point hs hp)

theorem EchoInv.feed (data : UInt16) : EchoInv base (n.feed data) := by
  have hcase := recByte_case n.bus n.now data
  exact h.emit hcase.sameSetup fun _ _ hcall => hcase.callInv hcall h.interrupt

theorem EchoInv.update (rand : UInt8) : EchoInv base (n.update rand) := by
  have hcase := update_case n.bus n.now rand
  exact h.emit hcase.sameSetup fun _ _ hcall => hcase.callInv hcall

theorem EchoInv.predict : EchoInv base (n.emit (n.bus.ubPredictTransmissionStart n.now)) :=
  h.emit (predict_sameSetup n.bus n.now) fun _ _ hcall => predict_callInv hcall

theorem EchoInv.prewait (cycles : UInt8) : EchoInv base (n.emit (n.bus.ubPrewait cycles, [])) :=
  h.emit (prewait_sameSetup n.bus cycles) fun _ _ hcall => prewait_callInv hcall cycles

/-- The call moves on: the observer sees `obs`, the bus is `bus`. -/
theorem EchoInv.moveTo (hsetup : SameSetup n.bus bus)
    (hcall : q ≠ .entry →
      CallInv packet q bus (obs.foldl Monitor.observe (monitor (shownSince base n)))) :
    EchoInv base ((n.emit (bus, obs)).moveTo packet q) := by
  refine h.next hsetup (emit_obs n (bus, obs)) fun packet' point hs hp => ?_
  obtain ⟨rfl, rfl⟩ := hs
  exact hcall hp

theorem EchoInv.leave (v : ℤ) : EchoInv base (n.leave v) := by
  refine h.next ⟨rfl, rfl, rfl⟩ (leave_obs n v) fun packet point hs => ?_
  cases hs

/-- A step of the call that only moves on inside the loop. -/
theorem EchoInv.stay (hcall : q ≠ .entry → CallInv packet q n.bus (monitor (shownSince base n))) :
    EchoInv base (n.moveTo packet q) := by
  rw [moveTo_eq_emit_moveTo]
  exact h.moveTo ⟨rfl, rfl, rfl⟩ hcall

/-- A step of the call from one point of the loop to another one that is not behind the polling
loop. -/
theorem EchoInv.advance (hcall : CallInv packet point n.bus (monitor (shownSince base n)))
    (hassigned : assigned q = assigned point) (hhanded : handed q = handed point)
    (hstart : afterStart point = true) (hloop : inLoop point = true) (hq : afterStart q = true)
    (hpoll : behindPoll q = false) : EchoInv base (n.moveTo packet q) := by
  apply h.stay
  intro _
  apply hcall.move hassigned hhanded hstart hloop
  · rintro rfl
    cases hq
  · rintro i rfl
    cases hpoll
  · intro _ hbehind
    rw [hpoll] at hbehind
    cases hbehind

/-- A move inside of `ub_send_packet`. -/
theorem EchoInv.sendStep (hs : n.sender = some (packet, point)) (stat rand : UInt8) :
    EchoInv base (n.sendStep packet stat rand point) := by
  have hcall : point ≠ .entry → CallInv packet point n.bus (monitor (shownSince base n)) :=
    h.call packet point hs
  have hcase := sendStep_case n packet stat rand point
  generalize n.sendStep packet stat rand point = m at hcase ⊢
  cases hcase with
  | busy | polledEnd | collided | complete | fails => exact h.leave _
  | accepts hidle => exact h.moveTo ⟨rfl, rfl, rfl⟩ fun _ => callInv_accepted packet _ hidle
  | setsStatus => exact h.moveTo ⟨rfl, rfl, rfl⟩ fun _ => (hcall (by simp)).statusSet
  | storesTime => exact h.moveTo ⟨rfl, rfl, rfl⟩ fun _ => (hcall (by simp)).activityUpdated n.now
  | starts => exact h.moveTo ⟨rfl, rfl, rfl⟩ fun _ => (hcall (by simp)).started
  | clearsWi => exact h.moveTo ⟨rfl, rfl, rfl⟩ fun _ => (hcall (by simp)).loopHead
  | expects i => exact h.moveTo ⟨rfl, rfl, rfl⟩ fun _ => (hcall (by simp)).callSend
  | passes i => exact h.moveTo ⟨rfl, rfl, rfl⟩ fun _ => (hcall (by simp)).inSend
  | polls | stillSending | unechoed | sent | received =>
    exact h.advance (hcall (by simp)) rfl rfl rfl rfl rfl rfl
  | polledNext i hi | reads i hstat hi =>
    rw [h.interrupt] at hi
    cases hi
  | stopped i hne =>
    apply h.stay
    intro _
    exact (hcall (by simp)).move rfl rfl rfl rfl (by simp) (by simp)
      (fun hsend => absurd hsend hne)
  | echoed i hwi =>
    apply h.stay
    intro _
    exact (hcall (by simp)).move rfl rfl rfl rfl (by simp) (by simp) (fun _ _ => hwi)
  | updates i =>
    have hu := h.update rand
    exact hu.advance (hu.call packet _ hs (by simp)) rfl rfl rfl rfl rfl rfl
  | next i hsend hlt =>
    apply h.stay
    intro _
    exact (hcall (by simp)).move rfl rfl rfl rfl (by simp) (by rintro j ⟨rfl⟩; exact hlt)
      (fun hs' _ => (hcall (by simp)).gap hs' rfl)

/-- Between two calls anything may be shown. -/
theorem EchoInv.emitIdle (hnone : n.sender = none) (hsetup : SameSetup n.bus r.1) :
    EchoInv base (n.emit r) := by
  refine h.next hsetup (emit_obs n r) fun packet point hs => ?_
  rw [emit_sender, hnone] at hs
  cases hs

theorem EchoInv.manage (hnone : n.sender = none) (received : Bytes) (rand : UInt8)
    (hook : Node.SendOnIdle) : EchoInv base (n.manage received rand hook) := by
  apply manage_induction hnone h
  · intro hpoll
    rw [h.interrupt] at hpoll
    cases hpoll
  · exact fun m _ hm => hm.update rand
  · exact fun m data size obs hs hm _ => hm.emitIdle hs ⟨rfl, rfl, rfl⟩
  · exact fun m packet _ hm => hm.stay fun hne => absurd rfl hne

/-- **One step.**  What `wi` says of the echo stays true, whatever happens next. -/
theorem EchoInv.step (hstep : Model.step n a = some n') : EchoInv base n' := by
  cases step_case hstep with
  | recByte data => exact h.feed data
  | predict => exact h.predict
  | update rand => exact h.update rand
  | prewait cycles => exact h.prewait cycles
  | tick us => exact ⟨h.interrupt, h.since, h.call⟩
  | send packet hnone => exact h.stay fun hne => absurd rfl hne
  | manage received rand hook hnone => exact h.manage hnone received rand hook
  | sender stat rand packet point hs => exact h.sendStep hs stat rand

omit h in
/-- While a call runs, the other actions leave it where it is, and its own steps keep its packet
until it returns. -/
theorem StepCase.running (hcase : StepCase n a n') (hs : n.sender = some (packet, point)) :
    n'.sender = some (packet, point) ∨
      (∃ stat rand, SendCase n packet stat rand point n') ∧
        (n'.sender = none ∨ ∃ q, n'.sender = some (packet, q)) := by
  cases hcase with
  | recByte | predict | update | prewait | tick => exact .inl hs
  | send _ hnone | manage _ _ _ hnone =>
    rw [hs] at hnone
    cases hnone
  | sender stat rand packet' point' hs' =>
    rw [hs] at hs'
    cases hs'
    have hsend := sendStep_case n packet stat rand point
    refine .inr ⟨⟨stat, rand, hsend⟩, ?_⟩
    generalize n.sendStep packet stat rand point = m at hsend ⊢
    cases hsend with
    | busy | polledEnd | collided | complete | fails => exact .inl rfl
    | _ => exact .inr ⟨_, rfl⟩

/-- The step in which the call returns 0: it stands behind the last polling loop. -/
theorem EchoInv.returns_zero (hs : n.sender = some (packet, point))
    (hstep : Model.step n a = some n') (hnone : n'.sender = none)
    (hzero : n'.obs.getLast? = some (.returned 0)) :
    ∃ more, n'.obs = base ++ more ++ [.returned 0] ∧
      (monitor more).echoed = packet.map UInt8.toUInt16 ∧ (monitor more).collided = false := by
  obtain ⟨more, hmore⟩ := h.since
  have hshown : shownSince base n = more := by
    unfold shownSince
    rw [← hmore, List.drop_left]
  rcases (step_case hstep).running hs with hsame | ⟨⟨stat, rand, hcase⟩, -⟩
  · rw [hnone] at hsame
    cases hsame
  · cases hcase with
    | complete i hsend hge =>
      have hinv := h.call packet _ hs (by simp)
      rw [hshown] at hinv
      obtain ⟨-, hecho, -, hcollided⟩ := hinv.complete hsend (Nat.not_lt.mpr hge)
      exact ⟨more, by rw [leave_obs, hmore], hecho, hcollided⟩
    | polledEnd i hi =>
      rw [h.interrupt] at hi
      cases hi
    | busy | collided => simp at hzero
    | fails i hstat => exact absurd (by simpa using hzero) (statToInt8_ne_zero hstat)
    | _ => cases hnone

end Runs

theorem echoInv_init (byteTimeUs packetTimeout : ℕ) (wi : ℤ) (time : ℕ)
    (hcfg : cfg &&& cfgReadWithInterrupt ≠ 0) :
    EchoInv [] (Node.init byteTimeUs packetTimeout cfg wi time) := by
  refine ⟨decide_eq_true hcfg, List.nil_prefix, ?_⟩
  intro packet point hs
  cases hs

/-- **A return of 0 means a faithful echo.**  In interrupt mode, take any call of `ub_send_packet`
with `packet` in a reachable state, and any actions `during` it, between any two of its accesses.
When it returns 0, the bytes fed between its first assignment of `wi` and its last test of the
status are the packet, and no collision event was emitted since it found the bus idle.
SOURCE: ub.c:234-288, 298-387 -/
theorem returned_zero_echo (byteTimeUs packetTimeout : ℕ) (cfg : UInt8) (wi : ℤ) (time : ℕ)
    (hcfg : cfg &&& cfgReadWithInterrupt ≠ 0) (acts : List LinkAction) (n : Node)
    (hrun : run step (Node.init byteTimeUs packetTimeout cfg wi time) acts = some n)
    (packet : List UInt8) (hentry : n.sender = some (packet, .entry)) (during : List LinkAction)
    (m : Node) (hduring : run step n during = some m)
    (hcall : Along step (fun k _ => k.sender ≠ none) n during) (hreturned : m.sender = none)
    (hzero : m.obs.getLast? = some (.returned 0)) :
    ∃ more, m.obs = n.obs ++ more ++ [.returned 0] ∧
      (monitor more).echoed = packet.map UInt8.toUInt16 ∧ (monitor more).collided = false := by
  have hreach : EchoInv [] n := run_invariant_all (fun _ _ _ hk hs => hk.step hs)
    (echoInv_init byteTimeUs packetTimeout wi time hcfg) hrun
  have hbegin : EchoInv n.obs n := by
    refine ⟨hreach.interrupt, List.prefix_rfl, fun p q hs hq => ?_⟩
    rw [hentry] at hs
    cases hs
    exact absurd rfl hq
  rcases List.eq_nil_or_concat' during with rfl | ⟨before, a, rfl⟩
  · cases hduring
    rw [hentry] at hreturned
    cases hreturned
  -- the last action is the return; the call runs in the state `k` before it
  obtain ⟨k, hbefore, hstep⟩ := (run_concat_eq_some step n m a before).mp hduring
  obtain ⟨halong, hrunning⟩ := (along_concat hbefore).mp hcall
  have hinv : EchoInv n.obs k := run_invariant_all (fun _ _ _ hk hs => hk.step hs) hbegin hbefore
  have hsame : k.sender = none ∨ ∃ q, k.sender = some (packet, q) := by
    refine run_invariant (I := fun k => k.sender = none ∨ ∃ q, k.sender = some (packet, q))
      (fun k a k' hk hne hs => ?_) (.inr ⟨_, hentry⟩) halong hbefore
    obtain ⟨q, hq⟩ := hk.resolve_left hne
    rcases (step_case hs).running hq with hsame | ⟨-, hown⟩
    · exact .inr ⟨q, hsame⟩
    · exact hown
  obtain ⟨q, hq⟩ := hsame.resolve_left hrunning
  exact hinv.returns_zero hq hstep hreturned hzero

/-- Both bytes of a packet of two bytes are echoed inside `do_send_byte`. -/
def echoedCall : List LinkAction :=
  List.replicate 11 (LinkAction.sender 0 0) ++ [.recByte 7] ++ List.replicate 7 (.sender 0 0) ++
    [.recByte 8] ++ List.replicate 5 (.sender 0 0)

/-- A packet of two bytes, each echoed inside `do_send_byte`. -/
def echoedRun : List LinkAction := [LinkAction.tick 30, .update 0, .send [7, 8]] ++ echoedCall

/-- The call with the packet `[7, 8]` of `echoedRun` returns 0, with the echo of both bytes. -/
theorem returned_zero_echo_two_bytes :
    ∃ n m more, run step (Node.init 10 3 12 0 0) [.tick 30, .update 0, .send [7, 8]] = some n ∧
      run step n echoedCall = some m ∧ m.obs = n.obs ++ more ++ [.returned 0] ∧
      (monitor more).echoed = [7, 8] ∧ (monitor more).collided = false := by
  have hend : (run step (Node.init 10 3 12 0 0) [.tick 30, .update 0, .send [7, 8]]).bind
      (fun n => (run step n echoedCall).map fun m => (n.sender, m.sender, m.obs.getLast?,
        decide (Along step (fun k _ => k.sender ≠ none) n echoedCall))) =
      some (some ([7, 8], .entry), none, some (.returned 0), true) := by decide +kernel
  obtain ⟨n, hrun, hn⟩ := Option.bind_eq_some_iff.mp hend
  obtain ⟨m, hcall, hm⟩ := Option.map_eq_some_iff.mp hn
  simp only [Prod.mk.injEq, decide_eq_true_eq] at hm
  obtain ⟨more, hshown⟩ := returned_zero_echo 10 3 12 0 0 (by decide) _ n hrun [7, 8] hm.1
    echoedCall m hcall hm.2.2.2 hm.2.1 hm.2.2.1
  exact ⟨n, m, more, hrun, hcall, hshown⟩

/-! ## The end of a packet -/

/-- `do_send_byte` returns 0 where the step is a return from it. -/
def SendsByte : LinkAction → Prop
  | .sender stat _ => stat = 0
  | _ => True

instance decidableSendsByte : ∀ a : LinkAction, Decidable (SendsByte a)
  | .sender stat _ => inferInstanceAs (Decidable (stat = 0))
  | .recByte _ | .predict | .update _ | .prewait _ | .tick _ | .send _ | .manage _ _ _ =>
    .isTrue trivial

/-- The action is a call of `ub_out_update_state`. -/
def callsUpdate (n : Node) : LinkAction → Bool
  | .update _ => true
  | .sender _ _ =>
    match n.sender with
    | some (_, .pollUpdate _) => true
    | _ => false
  | _ => false

/-- A call of `ub_send_packet` runs that has bytes left to pass on. -/
def unfinished (n : Node) : Bool :=
  match n.sender with
  | some (packet, point) => decide (point ≠ .entry ∧ handed point < packet.length)
  | none => false

/-- `ub_out_update_state` is called when the slice has ended in a gap between two bytes. -/
def EndsInGap (n : Node) (a : LinkAction) : Prop :=
  callsUpdate n a = true ∧ n.bus.status = .sending ∧ n.bus.wi = -1 ∧
    n.bus.isSliceExceed n.now = true ∧ unfinished n = true

instance decidableEndsInGap (n : Node) (a : LinkAction) : Decidable (EndsInGap n a) :=
  inferInstanceAs (Decidable (_ ∧ _))

/-- Nothing has been called, or the call has not looked at the bus yet. -/
def Outside (n : Node) : Prop :=
  ∀ packet point, n.sender = some (packet, point) → point = .entry

/-- A packet whose last byte has been echoed is sent. -/
theorem CallInv.sent {m : Monitor} (h : CallInv packet point bus m) (hs : bus.status = .sending)
    (hwi : bus.wi = -1) (hall : packet.length ≤ handed point) : m.Sent := by
  unfold Monitor.Sent
  rw [h.samePacket]
  cases hloop : inLoop point with
  | false =>
    -- before the loop nothing has been handed over, so there is nothing to hand over
    have hzero : handed point = 0 := by cases point <;> first | rfl | cases hloop
    have hnil : packet = [] := List.length_eq_zero_iff.mp (by omega)
    rw [hnil]
    exact ⟨List.nil_prefix, List.nil_suffix⟩
  | true =>
    have hstart : afterStart point = true := by cases point <;> first | rfl | cases hloop
    have hle : handed point ≤ assigned point := by
      cases point <;> simp [handed, assigned]
    constructor
    · rw [h.passed hstart, List.take_of_length_le hall]
    · rcases h.matched hs hloop with ⟨-, hecho⟩ | ⟨j, v, -, -, hv, -⟩
      · rw [List.take_of_length_le (hall.trans hle)] at hecho
        rw [← hecho]
        exact h.window
      · omega

/-- The invariant behind the end of a packet. -/
structure SentInv (n : Node) : Prop where
  echo : EchoInv [] n
  complete : Outside n → n.bus.status = .sending → n.bus.wi = -1 ∧ (monitor n.obs).Sent
  cleared : AtEach (fun before o => o = .cleared → (monitor before).Sent) n.obs

section Completion

variable {n : Node}

theorem RecByteCase.sending (h : RecByteCase bus now data bus' obs) (hi : bus.interrupt = true)
    (hs : bus'.status = .sending) : bus.status = .sending ∧ bus.wi ≠ -1 := by
  have hold : bus.status = .sending := by
    by_contra hne
    exact h.ne_sending hne hs
  refine ⟨hold, ?_⟩
  cases h with
  | polled _ hpoll => rw [hi] at hpoll; cases hpoll
  | echoed _ _ hw => rw [hw]; omega
  | collides | begins => cases hs
  | disturbed h | inside h => rw [hold] at h; cases h
  | outside h => rw [hold] at h; rcases h with h | h <;> cases h

theorem observe_managed (h : ∀ o ∈ obs, ∃ v, o = .managed v) (m : Monitor) :
    obs.foldl Monitor.observe m = m := by
  induction obs with
  | nil => rfl
  | cons o obs ih =>
    obtain ⟨v, rfl⟩ := h o List.mem_cons_self
    exact ih fun o' ho' => h o' (List.mem_cons_of_mem _ ho')

variable (h : SentInv n)
include h

/-- Where nothing is awaited and no byte is left, the packet has been sent. -/
theorem SentInv.sent (hs : n.bus.status = .sending) (hwi : n.bus.wi = -1)
    (hdone : unfinished n = false) : (monitor n.obs).Sent := by
  by_cases hout : Outside n
  · exact (h.complete hout hs).2
  · unfold Outside at hout
    push Not at hout
    obtain ⟨packet, point, hsender, hpoint⟩ := hout
    have hall : ¬ handed point < packet.length := by
      simpa [unfinished, hsender, hpoint] using hdone
    exact (h.echo.call packet point hsender hpoint).sent hs hwi (Nat.le_of_not_lt hall)

/-- A call from outside that keeps `sending` only by doing nothing. -/
theorem SentInv.emit (hecho : EchoInv [] (n.emit r))
    (hsame : r.1.status = .sending → n.bus.status = .sending ∧ (n.bus.wi = -1 → r = (n.bus, [])))
    (hcleared : AtEach (fun before o => o = .cleared → (monitor before).Sent) (n.obs ++ r.2)) :
    SentInv (n.emit r) := by
  refine ⟨hecho, ?_, by rw [emit_obs]; exact hcleared⟩
  intro hout hs
  obtain ⟨hold, hnothing⟩ := hsame hs
  obtain ⟨hwi, hsent⟩ := h.complete hout hold
  rw [hnothing hwi]
  simpa using ⟨hwi, hsent⟩

theorem SentInv.cleared_append (hno : .cleared ∉ obs) :
    AtEach (fun before o => o = .cleared → (monitor before).Sent) (n.obs ++ obs) := by
  apply h.cleared.append
  rintro o ho before rfl
  exact absurd ho hno

theorem SentInv.feed (data : UInt16) : SentInv (n.feed data) := by
  have hcase := recByte_case n.bus n.now data
  apply h.emit (h.echo.feed data)
  · intro hs
    obtain ⟨hold, hwi⟩ := hcase.sending h.echo.interrupt hs
    exact ⟨hold, fun h0 => absurd h0 hwi⟩
  · exact h.cleared_append hcase.not_cleared

theorem SentInv.predict : SentInv (n.emit (n.bus.ubPredictTransmissionStart n.now)) := by
  apply h.emit h.echo.predict
  · unfold Bus.ubPredictTransmissionStart
    split
    · intro hs
      cases hs
    · exact fun hs => ⟨hs, fun _ => rfl⟩
  · apply h.cleared_append
    unfold Bus.ubPredictTransmissionStart
    split <;> simp

theorem SentInv.prewait (cycles : UInt8) : SentInv (n.emit (n.bus.ubPrewait cycles, [])) := by
  apply h.emit (h.echo.prewait cycles)
  · unfold Bus.ubPrewait
    split
    · intro hs
      cases hs
    · exact fun hs => ⟨hs, fun _ => rfl⟩
  · exact h.cleared_append (by simp)

/-- `ub_out_update_state` ends the packet only where it is complete. -/
theorem UpdateCase.sentInv (hcase : UpdateCase n.bus n.now r.1 r.2) (hecho : EchoInv [] (n.emit r))
    (hgap : n.bus.status = .sending → n.bus.wi = -1 → n.bus.isSliceExceed n.now = true →
      unfinished n = false) : SentInv (n.emit r) := by
  obtain ⟨bus', obs⟩ := r
  apply h.emit hecho
  · intro hs
    cases hcase with
    | unchanged => exact ⟨hs, fun _ => rfl⟩
    | endWait | endReceive | missed | success | endCollision | connect => cases hs
  · cases hcase with
    | success wi hs hwi he =>
      have hsent := h.sent hs hwi (hgap hs hwi he)
      rw [show ([.cleared, .event .sendEnd] : List Observation) =
        [.cleared] ++ [.event .sendEnd] from rfl, ← List.append_assoc, atEach_concat,
        atEach_concat]
      exact ⟨⟨h.cleared, fun _ => hsent⟩, by simp⟩
    | unchanged | endWait | endReceive | missed | endCollision | connect =>
      exact h.cleared_append (by simp)

theorem SentInv.update (rand : UInt8)
    (hgap : n.bus.status = .sending → n.bus.wi = -1 → n.bus.isSliceExceed n.now = true →
      unfinished n = false) : SentInv (n.update rand) :=
  (update_case n.bus n.now rand).sentInv h (h.echo.update rand) hgap

theorem SentInv.enter (hnone : n.sender = none) (packet : Bytes) :
    SentInv (n.moveTo packet .entry) := by
  refine ⟨h.echo.stay fun hne => absurd rfl hne, ?_, h.cleared⟩
  intro _ hs
  apply h.complete _ hs
  intro p q hpq
  rw [hnone] at hpq
  cases hpq

theorem SentInv.manage (hnone : n.sender = none) (received : Bytes) (rand : UInt8)
    (hook : Node.SendOnIdle) : SentInv (n.manage received rand hook) := by
  apply manage_induction hnone h
  · intro hpoll
    rw [h.echo.interrupt] at hpoll
    cases hpoll
  · intro m hs hm
    exact hm.update rand fun _ _ _ => by simp [unfinished, hs]
  · intro m data size obs hs hm hobs
    have hno : ∀ o, (∀ v, o ≠ .managed v) → o ∉ obs := by
      intro o hne ho
      obtain ⟨v, hv⟩ := hobs o ho
      exact hne v hv
    refine ⟨hm.echo.emitIdle hs ⟨rfl, rfl, rfl⟩, ?_, ?_⟩
    · intro hout hsend
      rw [emit_obs, monitor_append, observe_managed hobs]
      exact hm.complete hout hsend
    · rw [emit_obs]
      exact hm.cleared_append (hno _ (by simp))
  · exact fun m packet hs hm => hm.enter hs packet

theorem SentInv.leave {v : ℤ} (hecho : EchoInv [] (n.leave v))
    (hdone : n.bus.status = .sending → n.bus.wi = -1 ∧ (monitor n.obs).Sent) :
    SentInv (n.leave v) := by
  refine ⟨hecho, fun _ hs => ?_, ?_⟩
  · rw [leave_obs, monitor_append]
    exact hdone hs
  · rw [leave_obs]
    exact h.cleared_append (by simp)

/-- A step that moves on inside the call. -/
theorem SentInv.inside (hecho : EchoInv [] n') (hsender : n'.sender = some (packet, q))
    (hq : q ≠ .entry) (hobs : n'.obs = n.obs ++ obs) (hno : .cleared ∉ obs) : SentInv n' := by
  refine ⟨hecho, ?_, ?_⟩
  · intro hout
    exact absurd (hout packet q hsender) hq
  · rw [hobs]
    exact h.cleared_append hno

/-- A move inside of `ub_send_packet` that does not end in a gap. -/
theorem SentInv.sendStep (hs : n.sender = some (packet, point)) (rand : UInt8)
    (hgap : ¬ EndsInGap n (.sender 0 rand)) : SentInv (n.sendStep packet 0 rand point) := by
  have hecho := h.echo.sendStep hs 0 rand
  have hmove : ∀ {q : SendPoint}, EchoInv [] (n.moveTo packet q) → q ≠ .entry →
      SentInv (n.moveTo packet q) :=
    fun he hq => h.inside he rfl hq (List.append_nil _).symm (by simp)
  have hcase := sendStep_case n packet 0 rand point
  generalize n.sendStep packet 0 rand point = m at hcase hecho ⊢
  cases hcase with
  | accepts | setsStatus | storesTime | starts | clearsWi | expects | passes =>
    exact h.inside hecho rfl (by simp) (emit_obs _ _) (by simp)
  | polls | polledNext | stillSending | stopped | unechoed | echoed | next | sent | reads
  | received => exact hmove hecho (by simp)
  | busy hbusy =>
    apply h.leave hecho
    apply h.complete
    intro p q hpq
    rw [hs] at hpq
    cases hpq
    rfl
  | polledEnd i hi =>
    rw [h.echo.interrupt] at hi
    cases hi
  | fails i hstat => exact absurd rfl hstat
  | collided i hne => exact h.leave hecho fun hs' => absurd hs' hne
  | complete i hsend hge =>
    have hinv := h.echo.call packet _ hs (by simp)
    have hwi := hinv.gap hsend rfl
    exact h.leave hecho fun _ => ⟨hwi, hinv.sent hsend hwi hge⟩
  | updates i =>
    have hcalls : callsUpdate n (.sender 0 rand) = true := by simp [callsUpdate, hs]
    have hu : SentInv (n.update rand) := by
      apply h.update rand
      intro hsend hwi he
      by_contra hun
      exact hgap ⟨hcalls, hsend, hwi, he, by simpa using hun⟩
    exact hu.inside hecho rfl (by simp) (List.append_nil _).symm (by simp)

/-- **One step.**  Packets end complete as long as no slice ends in a gap. -/
theorem SentInv.step (hbyte : SendsByte a) (hgap : ¬ EndsInGap n a)
    (hstep : Model.step n a = some n') : SentInv n' := by
  cases step_case hstep with
  | recByte data => exact h.feed data
  | predict => exact h.predict
  | update rand =>
    apply h.update rand
    intro hsend hwi he
    by_contra hun
    exact hgap ⟨rfl, hsend, hwi, he, by simpa using hun⟩
  | prewait cycles => exact h.prewait cycles
  | tick us => exact ⟨⟨h.echo.interrupt, h.echo.since, h.echo.call⟩, h.complete, h.cleared⟩
  | send packet hnone => exact h.enter hnone packet
  | manage received rand hook hnone => exact h.manage hnone received rand hook
  | sender stat rand packet point hs =>
    obtain rfl : stat = 0 := hbyte
    exact h.sendStep hs rand hgap

end Completion

theorem sentInv_init (byteTimeUs packetTimeout : ℕ) (wi : ℤ) (time : ℕ)
    (hcfg : cfg &&& cfgReadWithInterrupt ≠ 0) :
    SentInv (Node.init byteTimeUs packetTimeout cfg wi time) := by
  refine ⟨echoInv_init byteTimeUs packetTimeout wi time hcfg, ?_, atEach_nil _⟩
  intro _ hs
  cases hs

/-- **A packet taken as sent has been sent**, in every run in which `ub_out_update_state` is
not called when the slice has ended in a gap between two bytes: when it sets `to_send_size` to
0, the packet has been passed to `do_send_byte` since the last `send_start`, and the last bytes
fed since then are its echo.  While a call runs, the packet of which this is said is the packet of
that call.
SOURCE: ub.c:200-216, 298-387 -/
theorem cleared_means_sent (byteTimeUs packetTimeout : ℕ) (cfg : UInt8) (wi : ℤ) (time : ℕ)
    (hcfg : cfg &&& cfgReadWithInterrupt ≠ 0) (acts : List LinkAction) (n : Node)
    (hrun : run step (Node.init byteTimeUs packetTimeout cfg wi time) acts = some n)
    (hbytes : ∀ a ∈ acts, SendsByte a)
    (hgaps : Along step (fun m a => ¬ EndsInGap m a)
      (Node.init byteTimeUs packetTimeout cfg wi time) acts) :
    AtEach (fun before o => o = .cleared → (monitor before).Sent) n.obs ∧
      ∀ packet point, n.sender = some (packet, point) → point ≠ .entry →
        (monitor n.obs).packet = packet := by
  have hinv : SentInv n := run_invariant (fun _ _ _ hm hc hs => hm.step hc.1 hc.2 hs)
    (sentInv_init byteTimeUs packetTimeout wi time hcfg) (hgaps.and_of_mem hbytes) hrun
  exact ⟨hinv.cleared, fun packet point hs hp => (hinv.echo.call packet point hs hp).samePacket⟩

/-- The packet of `echoedRun`, and the end of its slice. -/
theorem cleared_means_sent_two_bytes :
    ∃ n before, run step (Node.init 10 3 12 0 0) (echoedRun ++ [.tick 30, .update 0]) = some n ∧
      n.obs = before ++ [.cleared, .event .sendEnd] ∧ (monitor before).packet = [7, 8] ∧
      (monitor before).Sent := by
  refine exists₂_eq_some (Q := fun n => n.obs = n.obs.take 9 ++ [.cleared, .event .sendEnd] ∧
    (monitor (n.obs.take 9)).packet = [7, 8]) (by decide +kernel) ?_
  rintro n hrun ⟨hobs, hpacket⟩
  refine ⟨n.obs.take 9, hobs, hpacket, ?_⟩
  apply (cleared_means_sent 10 3 12 0 0 (by decide) _ n hrun (by decide +kernel)
    (by decide +kernel)).1 (n.obs.take 9) .cleared _ rfl
  refine ⟨[.event .sendEnd], ?_⟩
  rw [List.append_assoc]
  exact hobs.symm

/-- A packet of two bytes: the first is echoed, then the sending thread stands still for the
length of a slice, and `ub_out_update_state` from another loop takes the packet as sent. -/
theorem cleared_in_gap :
    ∃ n before, run step (Node.init 10 3 12 0 0)
        ([.tick 30, .update 0, .send [7, 8]] ++ List.replicate 11 (.sender 0 0) ++
          [.recByte 7, .tick 30, .update 0]) = some n ∧
      n.obs = before ++ [.cleared, .event .sendEnd] ∧ (monitor before).packet = [7, 8] ∧
      (monitor before).passed = [7] ∧ ¬ (monitor before).Sent := by
  refine exists₂_eq_some (Q := fun n => n.obs = n.obs.take 5 ++ [.cleared, .event .sendEnd] ∧
    (monitor (n.obs.take 5)).packet = [7, 8] ∧ (monitor (n.obs.take 5)).passed = [7])
    (by decide +kernel) ?_
  rintro n - ⟨hobs, hpacket, hpassed⟩
  refine ⟨n.obs.take 5, hobs, hpacket, hpassed, ?_⟩
  rintro ⟨hpre, -⟩
  rw [hpacket, hpassed] at hpre
  exact absurd hpre (by decide)

end Uartbus.Analysis
