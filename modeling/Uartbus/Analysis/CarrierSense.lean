import Uartbus.Analysis.Frames

/-!
# Carrier sense

A node that starts to send has been silent for `packet_timeout * byte_time_us`: every way back
to idle has measured that time from the last byte (`carrier_sense`).  The measure is the 32 bit
clock; a wrap of it can only make the silence look shorter (`isSliceExceed_elapsed`).

The exception is the start.  A byte fed while the node is connecting does not move
`last_bus_activity`, so the node leaves `connecting` in the middle of a transmission
(`carrier_ignored_connecting`).
-/

set_option autoImplicit false

namespace Uartbus.Analysis

open Lib Interface Model

variable {r : Bus × List Observation} {obs : List Observation} {s : UartbusStatus}
  {packet : Bytes} {a : LinkAction} {point : SendPoint} {n' : Node} {us : ℕ}

/-- Every byte was fed at least `us` microseconds ago. -/
def SilentFor (us : ℕ) (n : Node) : Prop :=
  ∀ t d, (t, Observation.fed d) ∈ n.trace → t + us ≤ n.time

/-- `last_bus_activity` is the clock at a moment that no byte came after. -/
def ActivitySeen (n : Node) : Prop :=
  ∃ last ≤ n.time, n.bus.lastBusActivity = last % 2 ^ 32 ∧
    ∀ t d, (t, Observation.fed d) ∈ n.trace → t ≤ last

/-- What the node knows of the bytes so far, by the status of the machine. -/
def Sense (us : ℕ) (n : Node) : UartbusStatus → Prop
  | .disconnected | .connecting => ∀ t d, (t, Observation.fed d) ∉ n.trace
  | .idle | .fairwait => SilentFor us n
  | .sending | .receiving | .collision => ActivitySeen n

/-- The clock of 32 bits never shows more time than has passed. -/
theorem isSliceExceed_elapsed {bus : Bus} {time last : ℕ} (hle : last ≤ time)
    (hlast : bus.lastBusActivity = last % 2 ^ 32) (hstatus : bus.status ≠ .fairwait)
    (h : bus.isSliceExceed (time % 2 ^ 32) = true) :
    last + bus.byteTimeUs * bus.packetTimeout ≤ time := by
  unfold Bus.isSliceExceed Bus.sliceCycles at h
  simp only at h
  split at h
  next hwrap =>
    -- the clock has wrapped at least once
    have h' := of_decide_eq_true h
    omega
  next hno =>
    have h' := of_decide_eq_true h
    omega

/-- The invariant of runs in which no byte is fed to a connecting node. -/
structure SenseInv (byteTimeUs packetTimeout : ℕ) (n : Node) : Prop where
  refines : Refines n
  setup : n.bus.byteTimeUs = byteTimeUs ∧ n.bus.packetTimeout = packetTimeout
  connected : n.bus.status ≠ .disconnected
  sense : Sense (byteTimeUs * packetTimeout) n (machineStatus n)
  fresh : ∀ p, n.sender = some (p, .activityUpdated) → n.bus.lastBusActivity = n.now

section Calls

variable {byteTimeUs packetTimeout : ℕ} {n : Node}

/-- No byte lies in the future. -/
theorem Sense.fed_le (h : Sense us n s) {t : ℕ} {d : UInt16}
    (hfed : (t, Observation.fed d) ∈ n.trace) : t ≤ n.time := by
  cases s with
  | disconnected | connecting => exact absurd hfed (h t d)
  | idle | fairwait =>
    have := h t d hfed
    omega
  | sending | receiving | collision =>
    obtain ⟨last, hle, -, hall⟩ := h
    exact le_trans (hall t d hfed) hle

/-- After a call that stores the clock, the activity is seen. -/
theorem activitySeen_emit (hlast : r.1.lastBusActivity = n.now)
    (hpast : ∀ t d, (t, Observation.fed d) ∈ n.trace → t ≤ n.time) : ActivitySeen (n.emit r) := by
  refine ⟨n.time, le_rfl, hlast, ?_⟩
  intro t d hfed
  rcases List.mem_append.mp hfed with hfed | hfed
  · exact hpast t d hfed
  · obtain ⟨o, -, ho⟩ := List.mem_map.mp hfed
    simp only [Prod.mk.injEq] at ho
    exact ho.1.ge

/-- Observations that feed nothing do not change what was fed. -/
theorem fed_mem_emit (hno : ∀ d, Observation.fed d ∉ r.2) {t : ℕ} {d : UInt16} :
    (t, Observation.fed d) ∈ (n.emit r).trace ↔ (t, .fed d) ∈ n.trace := by
  constructor
  · intro h
    rcases List.mem_append.mp h with h | h
    · exact h
    · obtain ⟨o, ho, heq⟩ := List.mem_map.mp h
      simp only [Prod.mk.injEq] at heq
      exact absurd (heq.2 ▸ ho) (hno d)
  · exact List.mem_append_left _

/-- What is known depends on the clock, on the activity and on what was fed only. -/
theorem Sense.of_same_fed {m : Node} (htime : m.time = n.time)
    (hlast : m.bus.lastBusActivity = n.bus.lastBusActivity)
    (hfed : ∀ t d, (t, Observation.fed d) ∈ m.trace ↔ (t, Observation.fed d) ∈ n.trace)
    (h : Sense us n s) : Sense us m s := by
  cases s with
  | disconnected | connecting => exact fun t d hm => h t d ((hfed t d).mp hm)
  | idle | fairwait =>
    intro t d hm
    rw [htime]
    exact h t d ((hfed t d).mp hm)
  | sending | receiving | collision =>
    obtain ⟨last, hle, hact, hall⟩ := h
    exact ⟨last, htime ▸ hle, hlast ▸ hact, fun t d hm => hall t d ((hfed t d).mp hm)⟩

/-- Every outcome of a fed byte but the one outside a frame stores the clock. -/
theorem RecByteCase.sense {data : UInt16} {bus' : Bus} (h : RecByteCase n.bus n.now data bus' obs)
    (hpast : ∀ t d, (t, Observation.fed d) ∈ n.trace → t ≤ n.time) (hc : n.bus.status ≠ .connecting)
    (hd : n.bus.status ≠ .disconnected) : Sense us (n.emit (bus', obs)) bus'.status := by
  have hseen : bus'.lastBusActivity = n.now → ActivitySeen (n.emit (bus', obs)) :=
    fun hlast => activitySeen_emit hlast hpast
  cases h with
  | outside h => rcases h with h | h <;> contradiction
  | polled h | echoed h =>
    rcases h with h | h <;>
      · simp only [h, Sense]
        exact hseen rfl
  | collides => exact hseen rfl
  | disturbed h =>
    simp only [h, Sense]
    exact hseen rfl
  | begins => exact hseen rfl
  | inside h =>
    simp only [h, Sense]
    exact hseen rfl

theorem predict_sense (h : Sense us n n.bus.status) :
    Sense us (n.emit (n.bus.ubPredictTransmissionStart n.now))
      (n.bus.ubPredictTransmissionStart n.now).1.status := by
  unfold Bus.ubPredictTransmissionStart
  split
  · exact activitySeen_emit rfl fun t d hfed => h.fed_le hfed
  · rw [show n.emit (n.bus, []) = n by simp [Node.emit]]
    exact h

theorem prewait_sense (cycles : UInt8) (h : Sense us n n.bus.status) :
    Sense us (n.emit (n.bus.ubPrewait cycles, [])) (n.bus.ubPrewait cycles).status := by
  unfold Bus.ubPrewait
  by_cases hs : n.bus.status = .idle ∨ n.bus.status = .fairwait
  · simp only [if_pos hs]
    have hsilent : SilentFor us n := by
      rcases hs with hs | hs <;>
        · rw [hs] at h
          exact h
    exact fun t d hfed => hsilent t d ((fed_mem_emit (by simp)).mp hfed)
  · simp only [if_neg hs]
    rw [show n.emit (n.bus, []) = n by simp [Node.emit]]
    exact h

variable (h : SenseInv byteTimeUs packetTimeout n) (hb : n.between = true)
include h hb

/-- The silence measured when a slice is exceeded. -/
theorem SenseInv.silentFor
    (hs : n.bus.status = .receiving ∨ n.bus.status = .sending ∨ n.bus.status = .collision)
    (he : n.bus.isSliceExceed n.now = true) : SilentFor (byteTimeUs * packetTimeout) n := by
  have hsense := h.sense
  rw [machineStatus_of_between hb] at hsense
  have hseen : ActivitySeen n := by
    rcases hs with hs | hs | hs <;>
      · rw [hs] at hsense
        exact hsense
  obtain ⟨last, hle, hlast, hall⟩ := hseen
  have hfair : n.bus.status ≠ .fairwait := by
    rcases hs with hs | hs | hs <;> simp [hs]
  have helapsed := isSliceExceed_elapsed hle hlast hfair he
  rw [h.setup.1, h.setup.2] at helapsed
  intro t d hfed
  have := hall t d hfed
  omega

/-- A call between the calls: the machine moves, and what is known fits the new status. -/
theorem SenseInv.emit (hmove : Moves n.bus.status (eventsOf r.2) r.1.status)
    (hsetup : SameSetup n.bus r.1)
    (hsense : Sense (byteTimeUs * packetTimeout) (n.emit r) r.1.status) :
    SenseInv byteTimeUs packetTimeout (n.emit r) := by
  have hb' : (n.emit r).between = true := hb
  refine ⟨h.refines.emit hb hmove, ?_, ?_, ?_, ?_⟩
  · rw [emit_bus, hsetup.2.1, hsetup.2.2]
    exact h.setup
  · exact fun hs => h.connected (hmove.not_back.1 hs)
  · rw [machineStatus_of_between hb']
    exact hsense
  · intro p hs
    exact absurd hb' (by simp [between_of_some hs, SendPoint.interruptible])

theorem SenseInv.feed (hc : n.bus.status ≠ .connecting) (data : UInt16) :
    SenseInv byteTimeUs packetTimeout (n.feed data) := by
  have hcase := recByte_case n.bus n.now data
  exact h.emit hb hcase.moves hcase.sameSetup
    (hcase.sense (fun t d hfed => h.sense.fed_le hfed) hc h.connected)

/-- Time passes in the statuses that wait for it; the others measure from the last byte. -/
theorem UpdateCase.sense {bus' : Bus} (hcase : UpdateCase n.bus n.now bus' obs) :
    Sense (byteTimeUs * packetTimeout) (n.emit (bus', obs)) bus'.status := by
  have hsense := h.sense
  rw [machineStatus_of_between hb] at hsense
  have hnofed : ∀ d, Observation.fed d ∉ obs := by
    intro d
    cases hcase <;> simp
  have hsilent : SilentFor (byteTimeUs * packetTimeout) n →
      SilentFor (byteTimeUs * packetTimeout) (n.emit (bus', obs)) :=
    fun hq t d hfed => hq t d ((fed_mem_emit hnofed).mp hfed)
  cases hcase with
  | unchanged =>
    rw [show n.emit (n.bus, []) = n by simp [Node.emit]]
    exact hsense
  | endWait hs he =>
    rw [hs] at hsense
    exact hsilent hsense
  | endReceive wi hs he => exact hsilent (h.silentFor hb (.inl hs) he)
  | missed hs hwi he =>
    rw [hs] at hsense
    obtain ⟨last, hle, hlast, hall⟩ := hsense
    exact ⟨last, hle, hlast, fun t d hfed => hall t d ((fed_mem_emit hnofed).mp hfed)⟩
  | success wi hs hwi he => exact hsilent (h.silentFor hb (.inr (.inl hs)) he)
  | endCollision wi hs he => exact hsilent (h.silentFor hb (.inr (.inr hs)) he)
  | connect hs he =>
    -- nothing was fed so far
    have hnone : ∀ t d, (t, Observation.fed d) ∉ n.trace := by
      rcases hs with hs | hs <;>
        · rw [hs] at hsense
          exact hsense
    intro t d hfed
    exact absurd ((fed_mem_emit hnofed).mp hfed) (hnone t d)

theorem SenseInv.update (rand : UInt8) : SenseInv byteTimeUs packetTimeout (n.update rand) := by
  have hcase := update_case n.bus n.now rand
  exact h.emit hb hcase.moves hcase.sameSetup (hcase.sense h hb)

/-- Time makes every byte older. -/
theorem SenseInv.tick (us : ℕ) :
    SenseInv byteTimeUs packetTimeout { n with time := n.time + us } := by
  refine ⟨⟨h.refines.bracketed, h.refines.checked, h.refines.statusSet,
    h.refines.activityUpdated⟩, h.setup, h.connected, ?_, ?_⟩
  · have hsense := h.sense
    have hsame : machineStatus { n with time := n.time + us } = machineStatus n := rfl
    rw [hsame]
    cases hs : machineStatus n with
    | disconnected | connecting =>
      rw [hs] at hsense
      exact hsense
    | idle | fairwait =>
      rw [hs] at hsense
      intro t d hfed
      exact le_trans (hsense t d hfed) (Nat.le_add_right n.time us)
    | sending | receiving | collision =>
      rw [hs] at hsense
      obtain ⟨last, hle, hlast, hall⟩ := hsense
      exact ⟨last, le_trans hle (Nat.le_add_right n.time us), hlast, hall⟩
  · -- the clock does not move between storing it and the start event
    intro p hs
    exact absurd hb (by simp [between_of_some (n := n) hs, SendPoint.interruptible])

end Calls

/-! ## Runs -/

section Runs

variable {byteTimeUs packetTimeout : ℕ} {n : Node}

theorem QuietStep.fed_mem {n : Node} (h : QuietStep point n n') (t : ℕ) (d : UInt16) :
    (t, Observation.fed d) ∈ n'.trace ↔ (t, Observation.fed d) ∈ n.trace := by
  obtain ⟨l, htrace, hown⟩ := h.shown
  rw [htrace, List.mem_append]
  constructor
  · rintro (hm | hm)
    · exact hm
    · obtain ⟨o, ho, heq⟩ := List.mem_map.mp hm
      simp only [Prod.mk.injEq] at heq
      have hfed := hown o ho
      rw [heq.2] at hfed
      exact hfed.elim
  · exact .inl

variable (h : SenseInv byteTimeUs packetTimeout n)
include h

theorem SenseInv.enter (hnone : n.sender = none) (packet : Bytes) :
    SenseInv byteTimeUs packetTimeout (n.moveTo packet .entry) := by
  have hb := h.refines.bracketed
  have hsense := h.sense
  rw [machineStatus_of_between (between_of_none hnone)] at hb hsense
  exact ⟨⟨hb, by simp, by simp, by simp⟩, h.setup, h.connected, hsense, by simp⟩

theorem SenseInv.manage (hnone : n.sender = none) (received : Bytes) (rand : UInt8)
    (hook : Node.SendOnIdle) (hc : ¬ FeedsConnecting n (.manage received rand hook)) :
    SenseInv byteTimeUs packetTimeout (n.manage received rand hook) := by
  refine manage_induction_connected hnone h hc (fun m data hb hn hm => hm.feed hb hn data)
    (fun m hb hm => hm.update hb rand) ?_ (fun m p hs hm => hm.enter hs p)
  intro m data size obs hb hm hobs
  have hnofed : ∀ d, Observation.fed d ∉ obs := by
    intro d hd
    obtain ⟨v, hv⟩ := hobs _ hd
    cases hv
  refine hm.emit hb ?_ ⟨rfl, rfl, rfl⟩ ?_
  · rw [eventsOf_managed hobs]
    exact .stay _
  · have hsense := hm.sense
    rw [machineStatus_of_between hb] at hsense
    exact Sense.of_same_fed (n := m) rfl rfl (fun t d => fed_mem_emit hnofed) hsense

/-- The call of `ub_out_update_state` in a polling loop. -/
theorem SenseInv.pollUpdate {i : ℕ} (hs : n.sender = some (packet, .pollUpdate i))
    (stat rand : UInt8) :
    SenseInv byteTimeUs packetTimeout (n.sendStep packet stat rand (.pollUpdate i)) := by
  have hb : n.between = true := between_of_some hs
  have hb' : (n.update rand).between = true := hb
  have hu := h.update hb rand
  have hsense := hu.sense
  rw [machineStatus_of_between hb'] at hsense
  refine ⟨h.refines.sendStep hs stat rand, hu.setup, hu.connected, ?_, by simp [Node.sendStep]⟩
  exact hsense

/-- A move inside of `ub_send_packet`. -/
theorem SenseInv.sendStep (hs : n.sender = some (packet, point)) (stat rand : UInt8) :
    SenseInv byteTimeUs packetTimeout (n.sendStep packet stat rand point) := by
  have hrefines := h.refines.sendStep hs stat rand
  have hcase := sendStep_case n packet stat rand point
  rcases sendStep_quiet n packet stat rand point with ⟨i, rfl⟩ | hquiet
  · exact h.pollUpdate hs stat rand
  · generalize n.sendStep packet stat rand point = m at hrefines hcase hquiet ⊢
    have hconnected : m.bus.status ≠ .disconnected := by
      rcases hquiet.status with heq | ⟨-, heq⟩
      · rw [heq]
        exact h.connected
      · simp [heq]
    have hsetup : m.bus.byteTimeUs = byteTimeUs ∧ m.bus.packetTimeout = packetTimeout := by
      rw [hquiet.setup.2.1, hquiet.setup.2.2]
      exact h.setup
    have hsense := h.sense
    have hkeep : m.bus.lastBusActivity = n.bus.lastBusActivity →
        machineStatus m = machineStatus n →
        Sense (byteTimeUs * packetTimeout) m (machineStatus m) := by
      intro hlast hstatus
      rw [hstatus]
      exact hsense.of_same_fed hquiet.time hlast hquiet.fed_mem
    cases hcase with
    | setsStatus =>
      refine ⟨hrefines, hsetup, hconnected, hkeep rfl ?_, by simp⟩
      have hidle := h.refines.checked packet hs
      simp [machineStatus, hs, hidle]
    | storesTime =>
      refine ⟨hrefines, hsetup, hconnected, ?_, fun _ _ => rfl⟩
      have hidle : machineStatus n = .idle := by simp [machineStatus, hs]
      rw [hidle] at hsense
      intro t d hfed
      exact hsense t d ((hquiet.fed_mem t d).mp hfed)
    | starts =>
      refine ⟨hrefines, hsetup, hconnected, ?_, by simp⟩
      have hsending := h.refines.activityUpdated packet hs
      simp only [machineStatus, moveTo_sender, moveTo_bus, emit_bus, hsending]
      have hpast : ∀ t d, (t, Observation.fed d) ∈ n.trace → t ≤ n.time :=
        fun t d hfed => hsense.fed_le hfed
      exact ⟨n.time, le_rfl, h.fresh packet hs,
        fun t d hfed => hpast t d ((hquiet.fed_mem t d).mp hfed)⟩
    | updates i => exact h.pollUpdate hs stat rand
    | _ =>
      refine ⟨hrefines, hsetup, hconnected, hkeep rfl ?_, by simp⟩
      simp [machineStatus, hs]

/-- **One step.**  What is known of the bytes stays true as long as none is fed to a
connecting node. -/
theorem SenseInv.step (hc : ¬ FeedsConnecting n a) (hstep : stepAtomic n a = some n') :
    SenseInv byteTimeUs packetTimeout n' := by
  obtain ⟨hcase, hb⟩ := stepAtomic_case hstep
  have hsense : n.between = true →
      Sense (byteTimeUs * packetTimeout) n n.bus.status := by
    intro hb
    rw [← machineStatus_of_between hb]
    exact h.sense
  cases hcase with
  | recByte data => exact h.feed (by simpa using hb) hc data
  | predict =>
    have hb : n.between = true := by simpa using hb
    exact h.emit hb (predict_moves n.bus n.now) (predict_sameSetup n.bus n.now)
      (predict_sense (hsense hb))
  | update rand => exact h.update (by simpa using hb) rand
  | prewait cycles =>
    have hb : n.between = true := by simpa using hb
    exact h.emit hb (prewait_moves n.bus cycles) (prewait_sameSetup n.bus cycles)
      (prewait_sense cycles (hsense hb))
  | tick us => exact h.tick (by simpa using hb) us
  | send packet hnone => exact h.enter hnone packet
  | manage received rand hook hnone => exact h.manage hnone received rand hook hc
  | sender stat rand packet point hs => exact h.sendStep hs stat rand

end Runs

theorem senseInv_init (byteTimeUs packetTimeout : ℕ) (cfg : UInt8) (wi : ℤ) (time : ℕ) :
    SenseInv byteTimeUs packetTimeout (Node.init byteTimeUs packetTimeout cfg wi time) := by
  refine ⟨refines_init byteTimeUs packetTimeout cfg wi time, ⟨rfl, rfl⟩,
    UartbusStatus.noConfusion, ?_, ?_⟩
  · intro t d hfed
    cases hfed
  · intro p hs
    cases hs

/-- The step from idle to sending is the assignment in `ub_send_packet`. -/
theorem checked_of_idle_sending {n : Node} (h : StepCase n a n') (hidle : n.bus.status = .idle)
    (hsending : n'.bus.status = .sending) :
    ∃ packet stat rand, n.sender = some (packet, .checked) ∧
      n' = n.sendStep packet stat rand .checked := by
  have hne : n.bus.status ≠ .sending := by simp [hidle]
  cases h with
  | recByte data => exact absurd hsending ((recByte_case n.bus n.now data).ne_sending hne)
  | predict => simp [Bus.ubPredictTransmissionStart, hidle] at hsending
  | update rand => exact absurd hsending ((update_case n.bus n.now rand).ne_sending hne)
  | prewait cycles => simp [Bus.ubPrewait, hidle] at hsending
  | tick us => exact absurd hsending hne
  | send packet hnone => exact absurd hsending hne
  | manage received rand hook hnone => exact absurd hsending (manage_ne_sending hnone hne)
  | sender stat rand packet point hs =>
    rcases sendStep_quiet n packet stat rand point with ⟨i, rfl⟩ | hquiet
    · exact absurd hsending ((update_case n.bus n.now rand).ne_sending hne)
    · rcases hquiet.status with heq | ⟨rfl, -⟩
      · rw [heq] at hsending
        exact absurd hsending hne
      · exact ⟨packet, stat, rand, hs, rfl⟩

/-- **Carrier sense.**  Calls are taken as atomic, and `ub_send_packet` is interrupted only where it
waits.  In such a run in which no byte is fed to a connecting node, `ub_send_packet` takes the bus
from idle to sending only when every byte is at least `packet_timeout * byte_time_us` old.
SOURCE: ub.c:156-229, 262-288, 389-397, 442-451 -/
theorem carrier_sense (byteTimeUs packetTimeout : ℕ) (cfg : UInt8) (wi : ℤ) (time : ℕ)
    (acts : List LinkAction) (n n' : Node) (a : LinkAction)
    (hrun : run stepAtomic (Node.init byteTimeUs packetTimeout cfg wi time) acts = some n)
    (hconnecting : Along stepAtomic (fun m b => ¬ FeedsConnecting m b)
      (Node.init byteTimeUs packetTimeout cfg wi time) acts)
    (hstep : stepAtomic n a = some n') (hidle : n.bus.status = .idle)
    (hsending : n'.bus.status = .sending) :
    ∀ t d, (t, Observation.fed d) ∈ n'.trace → t + packetTimeout * byteTimeUs ≤ n'.time := by
  have hinv : SenseInv byteTimeUs packetTimeout n :=
    run_invariant (fun _ _ _ hm hc hs => hm.step hc hs)
      (senseInv_init byteTimeUs packetTimeout cfg wi time) hconnecting hrun
  obtain ⟨packet, stat, rand, hs, rfl⟩ :=
    checked_of_idle_sending (stepAtomic_case hstep).1 hidle hsending
  have hmachine : machineStatus n = .idle := by
    unfold machineStatus
    rw [hs]
    exact hidle
  have hsense := hinv.sense
  rw [hmachine] at hsense
  intro t d hfed
  have hold : (t, Observation.fed d) ∈ n.trace := (fed_mem_emit (by simp)).mp hfed
  rw [Nat.mul_comm]
  exact hsense t d hold

/-- A frame, its end and the wait after it: the node sends 60 microseconds after the byte. -/
theorem carrier_sense_after_frame :
    ∃ n n', run stepAtomic (Node.init 10 3 12 0 0)
        [.tick 30, .update 0, .recByte 7, .tick 30, .update 0, .tick 30, .update 0, .send [9],
          .sender 0 0] = some n ∧
      stepAtomic n (.sender 0 0) = some n' ∧ (30, .fed 7) ∈ n'.trace ∧ 30 + 3 * 10 ≤ n'.time := by
  refine exists₂_eq_some (Q := fun n => n.bus.status = .idle ∧ ∃ n' ∈ stepAtomic n (.sender 0 0),
    n'.bus.status = .sending ∧ (30, .fed 7) ∈ n'.trace) (by decide +kernel) ?_
  rintro n hrun ⟨hidle, n', hstep, hsending, hfed⟩
  exact ⟨n', hstep, hfed, carrier_sense 10 3 12 0 0 _ n n' _ hrun (by decide +kernel) hstep hidle
    hsending 30 7 hfed⟩

/-- Bytes come every 10 microseconds from the start on; with a time-out of 30 the node goes
idle between two of them and starts to send at the time of the third. -/
theorem carrier_ignored_connecting :
    ∃ n n', run stepAtomic (Node.init 10 3 12 0 0)
        [.tick 10, .recByte 1, .tick 10, .recByte 2, .tick 10, .recByte 3, .update 0, .send [9],
          .sender 0 0] = some n ∧
      stepAtomic n (.sender 0 0) = some n' ∧ n.bus.status = .idle ∧ n'.bus.status = .sending ∧
      (30, .fed 3) ∈ n'.trace ∧ n'.time = 30 := by
  refine exists₂_eq_some (Q := fun n => n.bus.status = .idle ∧ ∃ n' ∈ stepAtomic n (.sender 0 0),
    n'.bus.status = .sending ∧ (30, .fed 3) ∈ n'.trace ∧ n'.time = 30) (by decide +kernel) ?_
  rintro n - ⟨hidle, n', hstep, hn'⟩
  exact ⟨n', hstep, hidle, hn'⟩

end Uartbus.Analysis
