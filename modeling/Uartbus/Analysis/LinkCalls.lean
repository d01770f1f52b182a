import Uartbus.Interface.StatusMachine
import Uartbus.Model.LinkSystem

/-!
# What one call of the link layer can do

`UpdateCase` and `RecByteCase` list the outcomes of `ub_out_update_state` and `ub_out_rec_byte`
with their conditions, and `SendCase` those of a step of `ub_send_packet`; every result about
runs goes through them and not through the code.
`UpdateCase.moves`, `RecByteCase.moves`, `predict_moves` and `prewait_moves` say that the code
makes the moves of the status machine and no others.
-/

set_option autoImplicit false

namespace Uartbus.Analysis

open Lib Interface Model

variable {bus bus' : Bus} {now : ℕ} {data : UInt16} {obs : List Observation} {n : Node}
  {hook : Node.SendOnIdle} {I : Node → Prop} {a : LinkAction} {received : Bytes} {rand : UInt8}

/-- The events among the observations. -/
def eventsOf (obs : List Observation) : List UartbusEvent :=
  obs.filterMap fun o => match o with
    | .event e => some e
    | _ => none

@[simp] theorem eventsOf_append (l m : List Observation) :
    eventsOf (l ++ m) = eventsOf l ++ eventsOf m := by simp [eventsOf]

/-- The outcomes of `ub_out_update_state`. -/
inductive UpdateCase (bus : Bus) (now : ℕ) : Bus → List Observation → Prop where
  | unchanged (h : bus.status = .idle ∨ bus.isSliceExceed now = false) :
      UpdateCase bus now bus []
  | endWait (h : bus.status = .fairwait) (he : bus.isSliceExceed now = true) :
      UpdateCase bus now { bus with status := .idle, lastBusActivity := now } []
  | endReceive (wi : ℤ) (h : bus.status = .receiving) (he : bus.isSliceExceed now = true) :
      UpdateCase bus now { bus with wi := wi, status := .fairwait, lastBusActivity := now }
        [.event .receiveEnd]
  | missed (h : bus.status = .sending) (hwi : bus.wi ≠ -1) (he : bus.isSliceExceed now = true) :
      UpdateCase bus now { bus with status := .collision }
        [.event .collisionStart, .event .sendEnd]
  | success (wi : ℤ) (h : bus.status = .sending) (hwi : bus.wi = -1)
      (he : bus.isSliceExceed now = true) :
      UpdateCase bus now
        { bus with toSendSize := 0, wi := wi, status := .fairwait, lastBusActivity := now }
        [.cleared, .event .sendEnd]
  | endCollision (wi : ℤ) (h : bus.status = .collision) (he : bus.isSliceExceed now = true) :
      UpdateCase bus now { bus with wi := wi, status := .fairwait, lastBusActivity := now }
        [.event .collisionEnd]
  | connect (h : bus.status = .connecting ∨ bus.status = .disconnected)
      (he : bus.isSliceExceed now = true) :
      UpdateCase bus now { bus with status := .idle } []

/-- What `ub_out_update_state` does. -/
theorem update_case (bus : Bus) (now : ℕ) (rand : UInt8) :
    UpdateCase bus now (bus.ubOutUpdateState now rand).1 (bus.ubOutUpdateState now rand).2 := by
  unfold Bus.ubOutUpdateState
  by_cases hidle : bus.status = .idle
  · rw [if_pos hidle]
    exact .unchanged (.inl hidle)
  · rw [if_neg hidle]
    by_cases he : bus.isSliceExceed now = false
    · rw [if_pos he]
      exact .unchanged (.inr he)
    · rw [if_neg he]
      have he' : bus.isSliceExceed now = true := by simpa using he
      cases hs : bus.status with
      | idle => exact absurd hs hidle
      | fairwait => exact .endWait hs he'
      | receiving => exact .endReceive _ hs he'
      | collision => exact .endCollision _ hs he'
      | connecting => exact .connect (.inl hs) he'
      | disconnected => exact .connect (.inr hs) he'
      | sending =>
        by_cases hwi : bus.wi = -1
        · simp only [ne_eq, hwi, not_true_eq_false, if_false]
          exact .success _ hs hwi he'
        · simp only [ne_eq, hwi, not_false_eq_true, if_true, Bus.ubCollisionHappened, hs]
          exact .missed hs hwi he'

/-- The byte given to the client after a collision, if it is. -/
def collisionData (bus : Bus) (data : UInt16) : List Observation :=
  if bus.hasCfg cfgSkipCollisionData then [] else [.delivered data.toUInt8]

/-- The outcomes of `ub_out_rec_byte`. -/
inductive RecByteCase (bus : Bus) (now : ℕ) (data : UInt16) :
    Bus → List Observation → Prop where
  | polled (h : bus.status = .sending ∨ bus.status = .collision) (hi : bus.interrupt = false) :
      RecByteCase bus now data { bus with lastBusActivity := now } [.fed data]
  | collides (h : bus.status = .sending) (hi : bus.interrupt = true) :
      RecByteCase bus now data { bus with status := .collision, lastBusActivity := now }
        ([.event .collisionStart, .event .sendEnd] ++ (collisionData bus data ++ [.fed data]))
  | disturbed (h : bus.status = .collision) (hi : bus.interrupt = true) :
      RecByteCase bus now data { bus with lastBusActivity := now }
        (collisionData bus data ++ [.fed data])
  | echoed (h : bus.status = .sending ∨ bus.status = .collision) (hi : bus.interrupt = true)
      (hw : bus.wi = data.toNat) :
      RecByteCase bus now data { bus with wi := -1, lastBusActivity := now } [.fed data]
  | begins (h : bus.status = .idle ∨ bus.status = .fairwait) :
      RecByteCase bus now data { bus with status := .receiving, lastBusActivity := now }
        [.event .receiveStart, .delivered data.toUInt8, .fed data]
  | outside (h : bus.status = .connecting ∨ bus.status = .disconnected) :
      RecByteCase bus now data bus [.delivered data.toUInt8, .fed data]
  | inside (h : bus.status = .receiving) :
      RecByteCase bus now data { bus with lastBusActivity := now }
        [.delivered data.toUInt8, .fed data]

/-- A collision found by `ub_check_and_handle_collision`, before or after the clock is
stored. -/
theorem collision_case (last : ℕ) (h : bus.status = .sending ∨ bus.status = .collision)
    (hi : bus.interrupt = true) :
    RecByteCase bus now data
      (({ bus with lastBusActivity := last }.ubCollisionHappened).1.updateLastActivityNow now)
      (({ bus with lastBusActivity := last }.ubCollisionHappened).2 ++
        (collisionData bus data ++ [.fed data])) := by
  rcases h with h | h
  · have hcase : RecByteCase bus now data _ _ := .collides h hi
    simpa [Bus.ubCollisionHappened, Bus.updateLastActivityNow, h] using hcase
  · have hcase : RecByteCase bus now data _ _ := .disturbed h hi
    simpa [Bus.ubCollisionHappened, Bus.updateLastActivityNow, h] using hcase

/-- What `ub_out_rec_byte` does. -/
theorem recByte_case (bus : Bus) (now : ℕ) (data : UInt16) :
    RecByteCase bus now data (bus.ubOutRecByte now data).1 (bus.ubOutRecByte now data).2 := by
  unfold Bus.ubOutRecByte
  by_cases hsend : bus.status = .sending ∨ bus.status = .collision
  · rw [if_pos hsend]
    by_cases hi : bus.interrupt = true
    · rw [if_pos hi]
      unfold Bus.ubCheckAndHandleCollision
      by_cases hbad : data.toNat > 255 ∨ bus.wi ≠ data.toNat
      · rw [if_pos hbad]
        simpa [collisionData] using collision_case bus.lastBusActivity hsend hi
      · rw [if_neg hbad]
        by_cases he : bus.isSliceExceed now = true
        · rw [if_pos he]
          simpa [collisionData, Bus.updateLastActivityNow] using collision_case now hsend hi
        · rw [if_neg he]
          push Not at hbad
          exact .echoed hsend hi hbad.2
    · rw [if_neg hi]
      exact .polled hsend (by simpa using hi)
  · rw [if_neg hsend]
    by_cases hrec : bus.status = .receiving
    · rw [if_neg (by simpa using hrec)]
      exact .inside hrec
    · rw [if_pos hrec]
      unfold Bus.ubPredictTransmissionStart
      by_cases hstart : bus.status = .idle ∨ bus.status = .fairwait
      · simp only [if_pos hstart]
        exact .begins hstart
      · simp only [if_neg hstart]
        apply RecByteCase.outside
        cases hs : bus.status <;> simp_all

/-! ## Moves of the status machine -/

theorem eventsOf_collisionData (bus : Bus) (data : UInt16) :
    eventsOf (collisionData bus data) = [] := by
  unfold collisionData
  split <;> rfl

theorem UpdateCase.moves (h : UpdateCase bus now bus' obs) :
    Moves bus.status (eventsOf obs) bus'.status := by
  cases h with
  | unchanged => exact .stay _
  | endWait h => rw [h]; exact .endWait
  | endReceive wi h => rw [h]; exact .endReceive
  | missed h => rw [h]; exact .collide
  | success wi h => rw [h]; exact .endSend
  | endCollision wi h => rw [h]; exact .endCollision
  | connect h =>
    rcases h with h | h
    · rw [h]; exact .connect
    · rw [h]; exact .leaveDisconnected

theorem RecByteCase.moves (h : RecByteCase bus now data bus' obs) :
    Moves bus.status (eventsOf obs) bus'.status := by
  cases h with
  | polled | echoed | outside | inside => exact .stay _
  | collides h =>
    rw [h, eventsOf_append, eventsOf_append, eventsOf_collisionData]
    exact .collide
  | disturbed =>
    rw [eventsOf_append, eventsOf_collisionData]
    exact .stay _
  | begins h =>
    rcases h with h | h
    · rw [h]; exact .startReceive
    · rw [h]; exact .startReceiveEarly

theorem predict_moves (bus : Bus) (now : ℕ) :
    Moves bus.status (eventsOf (bus.ubPredictTransmissionStart now).2)
      (bus.ubPredictTransmissionStart now).1.status := by
  unfold Bus.ubPredictTransmissionStart
  by_cases h : bus.status = .idle ∨ bus.status = .fairwait
  · rw [if_pos h]
    rcases h with h | h
    · rw [h]; exact .startReceive
    · rw [h]; exact .startReceiveEarly
  · rw [if_neg h]
    exact .stay _

theorem prewait_moves (bus : Bus) (cycles : UInt8) :
    Moves bus.status [] (bus.ubPrewait cycles).status := by
  unfold Bus.ubPrewait
  by_cases h : bus.status = .idle ∨ bus.status = .fairwait
  · rw [if_pos h]
    rcases h with h | h
    · rw [h]; exact .prewait
    · rw [h]; exact .stay _
  · rw [if_neg h]
    exact .stay _

/-- The fields that are set up once. -/
def SameSetup (bus bus' : Bus) : Prop :=
  bus'.cfg = bus.cfg ∧ bus'.byteTimeUs = bus.byteTimeUs ∧ bus'.packetTimeout = bus.packetTimeout

theorem SameSetup.interrupt (h : SameSetup bus bus') :
    bus'.interrupt = bus.interrupt := by
  unfold Bus.interrupt Bus.hasCfg
  rw [h.1]

theorem UpdateCase.sameSetup (h : UpdateCase bus now bus' obs) : SameSetup bus bus' := by
  cases h <;> exact ⟨rfl, rfl, rfl⟩

theorem RecByteCase.sameSetup (h : RecByteCase bus now data bus' obs) : SameSetup bus bus' := by
  cases h <;> exact ⟨rfl, rfl, rfl⟩

theorem predict_sameSetup (bus : Bus) (now : ℕ) :
    SameSetup bus (bus.ubPredictTransmissionStart now).1 := by
  unfold Bus.ubPredictTransmissionStart
  split <;> exact ⟨rfl, rfl, rfl⟩

theorem prewait_sameSetup (bus : Bus) (cycles : UInt8) : SameSetup bus (bus.ubPrewait cycles) := by
  unfold Bus.ubPrewait
  split <;> exact ⟨rfl, rfl, rfl⟩

/-! ## What stays -/

theorem RecByteCase.toSend_eq (h : RecByteCase bus now data bus' obs) :
    bus'.toSend = bus.toSend ∧ bus'.toSendSize = bus.toSendSize := by
  cases h <;> exact ⟨rfl, rfl⟩

theorem UpdateCase.toSend_eq (h : UpdateCase bus now bus' obs) :
    bus'.toSend = bus.toSend ∧ (bus'.toSendSize = bus.toSendSize ∨ bus'.toSendSize = 0) := by
  cases h with
  | success => exact ⟨rfl, .inr rfl⟩
  | unchanged | endWait | endReceive | missed | endCollision | connect => exact ⟨rfl, .inl rfl⟩

/-- A node that is still sending after `ub_out_update_state` has not changed. -/
theorem UpdateCase.eq_of_sending (h : UpdateCase bus now bus' obs) (hs : bus'.status = .sending) :
    bus' = bus := by
  cases h with
  | unchanged => rfl
  | endWait | endReceive | missed | success | endCollision | connect => cases hs

/-! ## Steps of a node -/

/-- What a step of a node can be, at the granularity of single accesses. -/
inductive StepCase (n : Node) : LinkAction → Node → Prop where
  | recByte (data : UInt16) : StepCase n (.recByte data) (n.feed data)
  | predict : StepCase n .predict (n.emit (n.bus.ubPredictTransmissionStart n.now))
  | update (rand : UInt8) : StepCase n (.update rand) (n.update rand)
  | prewait (cycles : UInt8) :
      StepCase n (.prewait cycles) (n.emit (n.bus.ubPrewait cycles, []))
  | tick (us : ℕ) : StepCase n (.tick us) { n with time := n.time + us }
  | send (packet : Bytes) (h : n.sender = none) :
      StepCase n (.send packet) (n.moveTo packet .entry)
  | manage (received : Bytes) (rand : UInt8) (hook : Node.SendOnIdle)
      (h : n.sender = none) :
      StepCase n (.manage received rand hook) (n.manage received rand hook)
  | sender (stat rand : UInt8) (packet : Bytes) (point : SendPoint)
      (h : n.sender = some (packet, point)) :
      StepCase n (.sender stat rand) (n.sendStep packet stat rand point)

theorem step_case {n' : Node} (h : step n a = some n') : StepCase n a n' := by
  cases a with
  | recByte data => cases h; exact .recByte data
  | predict => cases h; exact .predict
  | update rand => cases h; exact .update rand
  | prewait cycles => cases h; exact .prewait cycles
  | tick us => cases h; exact .tick us
  | send packet =>
    simp only [step] at h
    split at h
    next hnone => cases h; exact .send packet hnone.1
    next => cases h
  | manage received rand hook =>
    simp only [step] at h
    split at h
    next hnone => cases h; exact .manage received rand hook hnone.1
    next => cases h
  | sender stat rand =>
    simp only [step] at h
    cases hs : n.sender with
    | none => simp [hs] at h
    | some pp =>
      obtain ⟨packet, point⟩ := pp
      simp only [hs, Option.some.injEq] at h
      subst h
      exact .sender stat rand packet point hs

/-- With atomic calls the environment acts only between them. -/
theorem stepAtomic_case {n' : Node} (h : stepAtomic n a = some n') :
    StepCase n a n' ∧ (n.between = true ∨ ∃ stat rand, a = .sender stat rand) := by
  refine ⟨step_case (stepAtomic_eq_some h), ?_⟩
  unfold stepAtomic at h
  cases a with
  | sender stat rand => exact .inr ⟨stat, rand, rfl⟩
  | recByte _ | predict | update _ | prewait _ | tick _ | send _ | manage _ _ _ =>
    left
    simp only at h
    split at h
    · assumption
    · cases h

/-! ## Calls made of other calls -/

/-- `ub_try_receive` feeds its bytes one after another. -/
theorem tryReceive_induction (hfeed : ∀ n (b : UInt8), I n → I (n.feed b.toUInt16))
    (received : Bytes) (h : I n) : I (n.tryReceive received) := by
  unfold Node.tryReceive
  induction received generalizing n with
  | nil => exact h
  | cons b received ih => exact ih (hfeed n b h)

theorem eventsOf_managed (h : ∀ o ∈ obs, ∃ v, o = .managed v) :
    eventsOf obs = [] := by
  unfold eventsOf
  rw [List.filterMap_eq_nil_iff]
  intro o ho
  obtain ⟨v, rfl⟩ := h o ho
  rfl

/-- `ub_manage_connection` keeps what the calls it is made of keep. -/
theorem manage_induction (hnone : n.sender = none) (h : I n)
    (hfeed : n.bus.interrupt = false → received ≠ [] →
      ∀ m (b : UInt8), m.sender = none → I m → I (m.feed b.toUInt16))
    (hupdate : ∀ m, m.sender = none → I m → I (m.update rand))
    (hset : ∀ m (data : Bytes) (size : ℕ) (obs : List Observation), m.sender = none → I m →
      (∀ o ∈ obs, ∃ v, o = .managed v) →
      I (m.emit ({ m.bus with toSend := data, toSendSize := size }, obs)))
    (henter : ∀ m p, m.sender = none → I m → I (m.moveTo p .entry)) :
    I (n.manage received rand hook) := by
  obtain ⟨m, hm, hI, hs⟩ : ∃ m, m = (if n.bus.interrupt then n else n.tryReceive received) ∧
      I m ∧ m.sender = none := by
    refine ⟨_, rfl, ?_⟩
    split
    · exact ⟨h, hnone⟩
    next hi =>
      by_cases hne : received = []
      · subst hne
        exact ⟨h, hnone⟩
      · apply tryReceive_induction (I := fun m => I m ∧ m.sender = none) _ received ⟨h, hnone⟩
        rintro k b ⟨hk, hs⟩
        exact ⟨hfeed (by simpa using hi) hne k b hs hk, hs⟩
  have hu : I (m.update rand) := hupdate m hs hI
  have hus : (m.update rand).sender = none := hs
  have hmanaged : ∀ (k : Node) (v : ℤ), k.sender = none → I k →
      I (k.emit (k.bus, [.managed v])) := by
    intro k v hks hk
    exact hset k k.bus.toSend k.bus.toSendSize [.managed v] hks hk (by simp)
  unfold Node.manage
  simp only [← hm]
  by_cases hidle : (m.update rand).bus.status = .idle
  · rw [if_pos hidle]
    by_cases hsize : (m.update rand).bus.toSendSize = 0
    · rw [if_pos hsize]
      cases hook with
      | null => exact hmanaged _ 2 hus hu
      | nothing => exact hmanaged _ 1 hus hu
      | packet data =>
        have hdata := hset _ data data.length [] hus hu (by simp)
        simp only
        split
        · exact henter _ data hus hdata
        · exact hmanaged _ 2 hus hdata
    · rw [if_neg hsize]
      exact henter _ _ hus hu
  · rw [if_neg hidle]
    exact hmanaged _ 2 hus hu

/-- What `ub_manage_connection` does with interrupt reads, behind its `ub_out_update_state`. -/
inductive ManageCase (n : Node) (rand : UInt8) (hook : Node.SendOnIdle) : Node → Prop where
  | returned (v : ℤ)
      (h : (n.update rand).bus.status ≠ .idle ∨ (n.update rand).bus.toSendSize = 0)
      (hhook : n.callsSendOnIdle rand → ∀ data, hook ≠ .packet data) :
      ManageCase n rand hook ((n.update rand).emit ((n.update rand).bus, [.managed v]))
  | resend (hidle : (n.update rand).bus.status = .idle)
      (hsize : (n.update rand).bus.toSendSize ≠ 0) :
      ManageCase n rand hook ((n.update rand).moveTo
        ((n.update rand).bus.toSend.take (n.update rand).bus.toSendSize) .entry)
  | handOver (data : Bytes) (hhook : hook = .packet data) (hcall : n.callsSendOnIdle rand)
      (hdata : data.length ≠ 0) :
      ManageCase n rand hook (((n.update rand).emit
        ({ (n.update rand).bus with toSend := data, toSendSize := data.length }, [])).moveTo
          data .entry)
  | handEmpty (data : Bytes) (hhook : hook = .packet data) (hcall : n.callsSendOnIdle rand)
      (hdata : data.length = 0) :
      ManageCase n rand hook ((n.update rand).emit
        ({ (n.update rand).bus with toSend := data, toSendSize := data.length }, [.managed 2]))

theorem manage_case (hi : n.bus.interrupt = true) (received : Bytes) (rand : UInt8)
    (hook : Node.SendOnIdle) : ManageCase n rand hook (n.manage received rand hook) := by
  unfold Node.manage
  rw [if_pos hi]
  by_cases hidle : (n.update rand).bus.status = .idle
  · rw [if_pos hidle]
    by_cases hsize : (n.update rand).bus.toSendSize = 0
    · rw [if_pos hsize]
      cases hook with
      | null => exact .returned 2 (.inr hsize) fun _ _ => (by simp)
      | nothing => exact .returned 1 (.inr hsize) fun _ _ => (by simp)
      | packet data =>
        simp only
        split
        next hdata => exact .handOver data rfl ⟨hidle, hsize⟩ hdata
        next hdata =>
          have hempty := ManageCase.handEmpty data rfl ⟨hidle, hsize⟩ (Decidable.not_not.mp hdata)
          simpa [Node.emit] using hempty
    · rw [if_neg hsize]
      exact .resend hidle hsize
  · rw [if_neg hidle]
    exact .returned 2 (.inl hidle) fun hcall => absurd hcall.1 hidle

/-- Only `ub_send_packet` itself takes a node to sending. -/
theorem RecByteCase.ne_sending (h : RecByteCase bus now data bus' obs)
    (hs : bus.status ≠ .sending) :
    bus'.status ≠ .sending := by
  cases h with
  | polled | echoed | outside | inside | disturbed => exact hs
  | collides | begins => simp

theorem UpdateCase.ne_sending (h : UpdateCase bus now bus' obs) (hs : bus.status ≠ .sending) :
    bus'.status ≠ .sending := by
  cases h with
  | unchanged => exact hs
  | endWait | endReceive | missed | success | endCollision | connect =>
    simp

theorem manage_ne_sending (hnone : n.sender = none) (hs : n.bus.status ≠ .sending) :
    (n.manage received rand hook).bus.status ≠ .sending := by
  apply manage_induction (I := fun m => m.bus.status ≠ .sending) hnone hs
  · intro _ _ m b _ hm
    exact (recByte_case m.bus m.now b.toUInt16).ne_sending hm
  · intro m _ hm
    exact (update_case m.bus m.now rand).ne_sending hm
  · intro m data size obs _ hm _
    exact hm
  · intro m p _ hm
    exact hm

/-- The outcomes of a step of `ub_send_packet`. -/
inductive SendCase (n : Node) (packet : Bytes) (stat rand : UInt8) :
    SendPoint → Node → Prop where
  | busy (h : n.bus.status ≠ .idle) : SendCase n packet stat rand .entry (n.leave 1)
  | accepts (h : n.bus.status = .idle) :
      SendCase n packet stat rand .entry
        ((n.emit (n.bus, [.accepted packet])).moveTo packet .checked)
  | setsStatus :
      SendCase n packet stat rand .checked
        ((n.emit ({ n.bus with status := .sending }, [])).moveTo packet .statusSet)
  | storesTime :
      SendCase n packet stat rand .statusSet
        ((n.emit (n.bus.updateLastActivityNow n.now, [])).moveTo packet .activityUpdated)
  | starts :
      SendCase n packet stat rand .activityUpdated
        ((n.emit (n.bus, [.event .sendStart])).moveTo packet .started)
  | clearsWi :
      SendCase n packet stat rand .started
        ((n.emit ({ n.bus with wi := -1 }, [])).moveTo packet (.loopHead 0))
  | polls (i : ℕ) (hi : n.bus.interrupt = true) :
      SendCase n packet stat rand (.loopHead i) (n.moveTo packet (.pollStatus i))
  | polledNext (i : ℕ) (hi : n.bus.interrupt = false) (hlt : i < packet.length) :
      SendCase n packet stat rand (.loopHead i) (n.moveTo packet (.assignWi i))
  | polledEnd (i : ℕ) (hi : n.bus.interrupt = false) (hge : packet.length ≤ i) :
      SendCase n packet stat rand (.loopHead i) (n.leave 0)
  | stillSending (i : ℕ) (h : n.bus.status = .sending) :
      SendCase n packet stat rand (.pollStatus i) (n.moveTo packet (.pollWi i))
  | stopped (i : ℕ) (h : n.bus.status ≠ .sending) :
      SendCase n packet stat rand (.pollStatus i) (n.moveTo packet (.statusCheck i))
  | unechoed (i : ℕ) (hwi : n.bus.wi ≠ -1) :
      SendCase n packet stat rand (.pollWi i) (n.moveTo packet (.pollUpdate i))
  | echoed (i : ℕ) (hwi : n.bus.wi = -1) :
      SendCase n packet stat rand (.pollWi i) (n.moveTo packet (.statusCheck i))
  | updates (i : ℕ) :
      SendCase n packet stat rand (.pollUpdate i) ((n.update rand).moveTo packet (.pollStatus i))
  | collided (i : ℕ) (h : n.bus.status ≠ .sending) :
      SendCase n packet stat rand (.statusCheck i) (n.leave (-2))
  | next (i : ℕ) (h : n.bus.status = .sending) (hlt : i < packet.length) :
      SendCase n packet stat rand (.statusCheck i) (n.moveTo packet (.assignWi i))
  | complete (i : ℕ) (h : n.bus.status = .sending) (hge : packet.length ≤ i) :
      SendCase n packet stat rand (.statusCheck i) (n.leave 0)
  | expects (i : ℕ) :
      SendCase n packet stat rand (.assignWi i)
        ((n.emit ({ n.bus with wi := ((packet.getD i 0).toNat : ℤ) },
          [.expect (packet.getD i 0)])).moveTo packet (.callSend i))
  | passes (i : ℕ) :
      SendCase n packet stat rand (.callSend i)
        ((n.emit (n.bus, [.passed (packet.getD i 0)])).moveTo packet (.inSend i))
  | fails (i : ℕ) (hstat : stat ≠ 0) :
      SendCase n packet stat rand (.inSend i) (n.leave (Node.statToInt8 stat))
  | sent (i : ℕ) (hstat : stat = 0) (hi : n.bus.interrupt = true) :
      SendCase n packet stat rand (.inSend i) (n.moveTo packet (.loopHead (i + 1)))
  | reads (i : ℕ) (hstat : stat = 0) (hi : n.bus.interrupt = false) :
      SendCase n packet stat rand (.inSend i) (n.moveTo packet (.inReceive i))
  | received (i : ℕ) :
      SendCase n packet stat rand (.inReceive i) (n.moveTo packet (.loopHead (i + 1)))

/-- `ub_send_packet` between two places where it can be interrupted.
SOURCE: ub.c:156-229 -/
theorem sendStep_case (n : Node) (packet : Bytes) (stat rand : UInt8) (point : SendPoint) :
    SendCase n packet stat rand point (n.sendStep packet stat rand point) := by
  cases point with
  | checked => exact .setsStatus
  | statusSet => exact .storesTime
  | activityUpdated => exact .starts
  | started => exact .clearsWi
  | pollUpdate i => exact .updates i
  | assignWi i => exact .expects i
  | callSend i => exact .passes i
  | inReceive i => exact .received i
  | entry =>
    simp only [Node.sendStep]
    split
    next h => exact .busy h
    next h => exact .accepts (Decidable.not_not.mp h)
  | loopHead i =>
    simp only [Node.sendStep]
    split
    next hi => exact .polls i hi
    next hi =>
      split
      next hlt => exact .polledNext i (Bool.eq_false_iff.mpr hi) hlt
      next hge => exact .polledEnd i (Bool.eq_false_iff.mpr hi) (Nat.le_of_not_lt hge)
  | pollStatus i =>
    simp only [Node.sendStep]
    split
    next h => exact .stillSending i h
    next h => exact .stopped i h
  | pollWi i =>
    simp only [Node.sendStep]
    split
    next hwi => exact .unechoed i hwi
    next hwi => exact .echoed i (Decidable.not_not.mp hwi)
  | statusCheck i =>
    simp only [Node.sendStep]
    split
    next h => exact .collided i h
    next h =>
      have hsending := Decidable.not_not.mp h
      split
      next hlt => exact .next i hsending hlt
      next hge => exact .complete i hsending (Nat.le_of_not_lt hge)
  | inSend i =>
    simp only [Node.sendStep]
    split
    next hstat => exact .fails i hstat
    next hstat =>
      have hzero := Decidable.not_not.mp hstat
      split
      next hi => exact .sent i hzero hi
      next hi => exact .reads i hzero (Bool.eq_false_iff.mpr hi)

/-- What a step of `ub_send_packet` shows of itself: no byte, and no event but the start. -/
def OwnObservation (o : Observation) : Prop :=
  match o with
  | .accepted _ | .expect _ | .passed _ | .returned _ | .event .sendStart => True
  | _ => False

/-- A step of `ub_send_packet` other than its call of `ub_out_update_state`. -/
structure QuietStep (point : SendPoint) (n n' : Node) : Prop where
  setup : SameSetup n.bus n'.bus
  time : n'.time = n.time
  status : n'.bus.status = n.bus.status ∨ point = .checked ∧ n'.bus.status = .sending
  shown : ∃ l : List Observation,
    n'.trace = n.trace ++ l.map (fun o => (n.time, o)) ∧ ∀ o ∈ l, OwnObservation o

theorem quietStep_emit {point : SendPoint} {r : Bus × List Observation} (packet : Bytes)
    (q : SendPoint) (hsetup : SameSetup n.bus r.1)
    (hstatus : r.1.status = n.bus.status ∨ point = .checked ∧ r.1.status = .sending)
    (hown : ∀ o ∈ r.2, OwnObservation o) : QuietStep point n ((n.emit r).moveTo packet q) :=
  ⟨hsetup, rfl, hstatus, r.2, rfl, hown⟩

theorem quietStep_moveTo (n : Node) (point : SendPoint) (packet : Bytes) (q : SendPoint) :
    QuietStep point n (n.moveTo packet q) :=
  ⟨⟨rfl, rfl, rfl⟩, rfl, .inl rfl, [], by simp, by simp⟩

theorem quietStep_leave (n : Node) (point : SendPoint) (v : ℤ) : QuietStep point n (n.leave v) :=
  ⟨⟨rfl, rfl, rfl⟩, rfl, .inl rfl, [.returned v], rfl,
    List.forall_mem_singleton.mpr trivial⟩

theorem sendStep_quiet (n : Node) (packet : Bytes) (stat rand : UInt8) (point : SendPoint) :
    (∃ i, point = .pollUpdate i) ∨ QuietStep point n (n.sendStep packet stat rand point) := by
  have hcase := sendStep_case n packet stat rand point
  generalize n.sendStep packet stat rand point = m at hcase ⊢
  cases hcase with
  | updates i => exact .inl ⟨i, rfl⟩
  | setsStatus => exact .inr (quietStep_emit _ _ ⟨rfl, rfl, rfl⟩ (.inr ⟨rfl, rfl⟩) (by simp))
  | storesTime | clearsWi =>
    exact .inr (quietStep_emit _ _ ⟨rfl, rfl, rfl⟩ (.inl rfl) (by simp))
  | accepts | starts | expects | passes =>
    exact .inr (quietStep_emit _ _ ⟨rfl, rfl, rfl⟩ (.inl rfl)
      (List.forall_mem_singleton.mpr trivial))
  | busy | polledEnd | collided | complete | fails => exact .inr (quietStep_leave n _ _)
  | polls | polledNext | stillSending | stopped | unechoed | echoed | next | sent | reads
  | received => exact .inr (quietStep_moveTo n _ packet _)

end Uartbus.Analysis
