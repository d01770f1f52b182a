import Uartbus.Analysis.LinkEvents

/-!
# Bytes and frames

Where `serial_byte_received` is called.  A byte that arrives in `receiving`, or that starts a
frame, is delivered inside the frame; in `sending` and `collision` it is delivered only with
interrupt reads and without `ub_cfg_skip_collision_data`.  A byte that arrives while the node
is connecting is delivered as well, with no frame around it, and this is the only way
(`delivered_inside_iff`).
-/

set_option autoImplicit false

namespace Uartbus.Analysis

open Lib Interface Model

variable {l : List Observation} {n n' : Node} {a : LinkAction} {o : Observation} {point : SendPoint}

/-- The bytes given to `serial_byte_received`. -/
def deliveredOf (obs : List Observation) : Bytes :=
  obs.filterMap fun o => match o with
    | .delivered b => some b
    | _ => none

/-- The bytes given to `ub_out_rec_byte`. -/
def fedOf (obs : List Observation) : Bytes :=
  obs.filterMap fun o => match o with
    | .fed data => some data.toUInt8
    | _ => none

/-- What was observed since the last `receive_start`. -/
def frameOf (obs : List Observation) : List Observation :=
  since (fun o => decide (o = .event .receiveStart)) obs

/-- The bytes delivered since the last `receive_start` are the bytes fed since then. -/
def FrameComplete (obs : List Observation) : Prop :=
  deliveredOf (frameOf obs) = fedOf (frameOf obs)

/-- Every delivered byte is in an open frame, and the bytes delivered in a frame are the bytes
fed in it, for every closed frame and for one that is still open. -/
structure FramesOk (obs : List Observation) : Prop where
  inside : AtEach (fun before o => ∀ b, o = .delivered b →
    Bracket.receive.Open (eventsOf before)) obs
  closed : AtEach (fun before o => o = .event .receiveEnd → FrameComplete before) obs
  current : Bracket.receive.Open (eventsOf obs) → FrameComplete obs

/-- The action feeds a byte to a node that is still connecting. -/
def FeedsConnecting (n : Node) : LinkAction → Prop
  | .recByte _ => n.bus.status = .connecting
  | .manage received _ _ =>
    n.bus.status = .connecting ∧ n.bus.interrupt = false ∧ received ≠ []
  | _ => False

instance (n : Node) (a : LinkAction) : Decidable (FeedsConnecting n a) := by
  cases a <;> unfold FeedsConnecting <;> infer_instance

/-! ## Observations one by one -/

section Observations

variable {obs : List Observation}

@[simp] theorem deliveredOf_append (l m : List Observation) :
    deliveredOf (l ++ m) = deliveredOf l ++ deliveredOf m := by simp [deliveredOf]

@[simp] theorem fedOf_append (l m : List Observation) : fedOf (l ++ m) = fedOf l ++ fedOf m := by
  simp [fedOf]

/-- An observation that has to do with no frame. -/
def Neutral : Observation → Prop
  | .delivered _ | .fed _ | .event .receiveStart | .event .receiveEnd => False
  | _ => True

theorem FramesOk.nil : FramesOk [] := by
  refine ⟨atEach_nil _, atEach_nil _, ?_⟩
  intro h
  exact absurd h (by decide)

theorem open_append_of_select (h : Bracket.receive.select (eventsOf l) = []) :
    Bracket.receive.Open (eventsOf (obs ++ l)) ↔ Bracket.receive.Open (eventsOf obs) := by
  unfold Bracket.Open
  rw [eventsOf_append, Bracket.select_append, h, List.append_nil]

theorem FramesOk.neutral (h : FramesOk obs) (ho : Neutral o) : FramesOk (obs ++ [o]) := by
  have hselect : Bracket.receive.select (eventsOf [o]) = [] := by
    cases o with
    | event e => cases e <;> first | rfl | exact False.elim ho
    | _ => rfl
  have hmark : frameOf (obs ++ [o]) = frameOf obs ++ [o] := by
    unfold frameOf
    rw [since_concat, if_neg]
    simp only [decide_eq_true_eq]
    rintro rfl
    exact ho
  refine ⟨atEach_concat.mpr ⟨h.inside, ?_⟩, atEach_concat.mpr ⟨h.closed, ?_⟩, ?_⟩
  · rintro b rfl
    exact False.elim ho
  · rintro rfl
    exact False.elim ho
  · intro hopen
    have hold := h.current ((open_append_of_select hselect).mp hopen)
    unfold FrameComplete at *
    have hd : deliveredOf [o] = [] := by
      cases o <;> first | rfl | exact False.elim ho
    have hf : fedOf [o] = [] := by
      cases o <;> first | rfl | exact False.elim ho
    rw [hmark, deliveredOf_append, fedOf_append, hd, hf, hold]

theorem FramesOk.neutrals (h : FramesOk obs) (hl : ∀ o ∈ l, Neutral o) : FramesOk (obs ++ l) := by
  induction l using List.reverseRecOn with
  | nil => simpa using h
  | append_singleton l o ih =>
    rw [← List.append_assoc]
    exact (ih fun o ho => hl o (by simp [ho])).neutral (hl o (by simp))

/-- A byte fed outside every frame and not delivered. -/
theorem FramesOk.fed (h : FramesOk obs) (hclosed : ¬ Bracket.receive.Open (eventsOf obs))
    (data : UInt16) : FramesOk (obs ++ [.fed data]) := by
  refine ⟨atEach_concat.mpr ⟨h.inside, by simp⟩, atEach_concat.mpr ⟨h.closed, by simp⟩, ?_⟩
  intro hopen
  exact absurd ((open_append_of_select rfl).mp hopen) hclosed

theorem FramesOk.receiveStart (h : FramesOk obs) : FramesOk (obs ++ [.event .receiveStart]) := by
  refine ⟨atEach_concat.mpr ⟨h.inside, by simp⟩, atEach_concat.mpr ⟨h.closed, by simp⟩, ?_⟩
  intro _
  unfold FrameComplete frameOf
  rw [since_concat]
  rfl

theorem FramesOk.receiveEnd (h : FramesOk obs) (hopen : Bracket.receive.Open (eventsOf obs)) :
    FramesOk (obs ++ [.event .receiveEnd]) := by
  refine ⟨atEach_concat.mpr ⟨h.inside, by simp⟩,
    atEach_concat.mpr ⟨h.closed, fun _ => h.current hopen⟩, ?_⟩
  intro hopen'
  unfold Bracket.Open at hopen'
  rw [eventsOf_append, Bracket.select_append] at hopen'
  have hselect : Bracket.receive.select (eventsOf [.event .receiveEnd]) = [.receiveEnd] := rfl
  rw [hselect, List.getLast?_concat] at hopen'
  exact absurd hopen' (by decide)

/-- A byte fed and delivered in an open frame. -/
theorem FramesOk.received (h : FramesOk obs) (hopen : Bracket.receive.Open (eventsOf obs))
    (data : UInt16) : FramesOk (obs ++ [.delivered data.toUInt8, .fed data]) := by
  have hsplit : obs ++ [Observation.delivered data.toUInt8, .fed data] =
      obs ++ [Observation.delivered data.toUInt8] ++ [Observation.fed data] := by simp
  refine ⟨?_, ?_, fun _ => ?_⟩
  · rw [hsplit]
    refine atEach_concat.mpr ⟨atEach_concat.mpr ⟨h.inside, fun b _ => hopen⟩, by simp⟩
  · rw [hsplit]
    refine atEach_concat.mpr ⟨atEach_concat.mpr ⟨h.closed, by simp⟩, by simp⟩
  · have hold := h.current hopen
    unfold FrameComplete frameOf at *
    rw [since_append _ (by simp), deliveredOf_append, fedOf_append, hold]
    rfl

/-- A byte delivered outside every frame is not forgiven later. -/
theorem not_framesOk_of_delivered {rest : List Observation} {b : UInt8}
    (hclosed : ¬ Bracket.receive.Open (eventsOf l)) : ¬ FramesOk (l ++ .delivered b :: rest) := by
  intro h
  have hsplit : l ++ Observation.delivered b :: rest =
      l ++ [Observation.delivered b] ++ rest := by simp
  have hinside := h.inside
  rw [hsplit] at hinside
  exact hclosed ((atEach_concat.mp hinside.of_append).2 b rfl)

end Observations

/-! ## Calls -/

/-- Bytes of a collision are not given to the client. -/
def Shielded (bus : Bus) : Prop :=
  bus.hasCfg cfgSkipCollisionData = true ∨ bus.interrupt = false

theorem Shielded.same {bus bus' : Bus} (h : Shielded bus) (hs : SameSetup bus bus') :
    Shielded bus' := by
  unfold Shielded Bus.interrupt Bus.hasCfg at *
  rwa [hs.1]

theorem Shielded.collisionData {bus : Bus} (h : Shielded bus) (hi : bus.interrupt = true)
    (data : UInt16) : collisionData bus data = [] := by
  rcases h with h | h
  · simp [Analysis.collisionData, h]
  · rw [hi] at h
    cases h

section Calls

variable {bus bus' : Bus} {now : ℕ} {obs more : List Observation}

/-- A byte comes in: it starts a frame, goes on with one or ends up in a collision. -/
theorem RecByteCase.framesOk {data : UInt16} (h : RecByteCase bus now data bus' more)
    (hok : FramesOk obs) (hopen : bus.status = .receiving ↔ Bracket.receive.Open (eventsOf obs))
    (hcfg : Shielded bus) (hc : bus.status ≠ .connecting) (hd : bus.status ≠ .disconnected) :
    FramesOk (obs ++ more) := by
  have hclosed : ∀ {l : List Observation}, bus.status ≠ .receiving →
      Bracket.receive.select (eventsOf l) = [] →
        ¬ Bracket.receive.Open (eventsOf (obs ++ l)) := by
    intro l hs hl hop
    exact hs (hopen.mpr ((open_append_of_select hl).mp hop))
  cases h with
  | polled h hi | echoed h hi hw =>
    apply hok.fed
    intro hop
    have := hopen.mpr hop
    rcases h with h | h <;> simp [h] at this
  | collides h hi =>
    rw [hcfg.collisionData hi, List.nil_append, ← List.append_assoc]
    have hneutral : ∀ o ∈ [Observation.event .collisionStart, .event .sendEnd], Neutral o :=
      List.forall_mem_cons.mpr ⟨trivial, List.forall_mem_singleton.mpr trivial⟩
    apply (hok.neutrals hneutral).fed
    exact hclosed (by simp [h]) rfl
  | disturbed h hi =>
    rw [hcfg.collisionData hi, List.nil_append]
    apply hok.fed
    intro hop
    have := hopen.mpr hop
    simp [h] at this
  | begins h =>
    have hstart := hok.receiveStart
    have hnow : Bracket.receive.Open (eventsOf (obs ++ [Observation.event .receiveStart])) := by
      unfold Bracket.Open
      rw [eventsOf_append, Bracket.select_append]
      exact List.getLast?_concat
    have := hstart.received hnow data
    simpa using this
  | outside h => rcases h with h | h <;> contradiction
  | inside h => exact hok.received (hopen.mp h) data

theorem UpdateCase.framesOk (h : UpdateCase bus now bus' more) (hok : FramesOk obs)
    (hopen : bus.status = .receiving ↔ Bracket.receive.Open (eventsOf obs)) :
    FramesOk (obs ++ more) := by
  cases h with
  | endReceive wi h => exact hok.receiveEnd (hopen.mp h)
  | unchanged | endWait | connect =>
    rw [List.append_nil]
    exact hok
  | missed | success =>
    exact hok.neutrals
      (List.forall_mem_cons.mpr ⟨trivial, List.forall_mem_singleton.mpr trivial⟩)
  | endCollision => exact hok.neutral trivial

theorem predict_framesOk (bus : Bus) (now : ℕ) (hok : FramesOk obs) :
    FramesOk (obs ++ (bus.ubPredictTransmissionStart now).2) := by
  unfold Bus.ubPredictTransmissionStart
  split
  · exact hok.receiveStart
  · simpa using hok

end Calls

/-! ## Runs -/

structure FrameInv (n : Node) : Prop where
  refines : Refines n
  frames : FramesOk n.obs
  shielded : Shielded n.bus
  connected : n.bus.status ≠ .disconnected

theorem FrameInv.open_iff (h : FrameInv n) (hb : n.between = true) :
    n.bus.status = .receiving ↔ Bracket.receive.Open (eventsOf n.obs) := by
  rw [← machineStatus_of_between hb]
  exact (h.refines.bracketed .receive).2

theorem FrameInv.emit {r : Bus × List Observation} (h : FrameInv n) (hb : n.between = true)
    (hmove : Moves n.bus.status (eventsOf r.2) r.1.status) (hsetup : SameSetup n.bus r.1)
    (hframes : FramesOk (n.obs ++ r.2)) : FrameInv (n.emit r) := by
  refine ⟨h.refines.emit hb hmove, ?_, h.shielded.same hsetup, ?_⟩
  · rw [emit_obs]
    exact hframes
  · exact fun hs => h.connected (hmove.not_back.1 hs)

theorem FrameInv.feed (h : FrameInv n) (hb : n.between = true) (hc : n.bus.status ≠ .connecting)
    (data : UInt16) : FrameInv (n.feed data) := by
  have hcase := recByte_case n.bus n.now data
  exact h.emit hb hcase.moves hcase.sameSetup
    (hcase.framesOk h.frames (h.open_iff hb) h.shielded hc h.connected)

theorem FrameInv.update (h : FrameInv n) (hb : n.between = true) (rand : UInt8) :
    FrameInv (n.update rand) := by
  have hcase := update_case n.bus n.now rand
  exact h.emit hb hcase.moves hcase.sameSetup (hcase.framesOk h.frames (h.open_iff hb))

/-- A fed byte does not take the node back to connecting. -/
theorem feed_status_ne_connecting (h : n.bus.status ≠ .connecting) (data : UInt16) :
    (n.feed data).bus.status ≠ .connecting :=
  fun hs => h ((recByte_case n.bus n.now data).moves.not_back.2 hs)

/-- `ub_manage_connection` keeps what its calls keep, where a byte is only fed to a node that
is not connecting.
SOURCE: ub.c:469-523 -/
theorem manage_induction_connected {I : Node → Prop} {received : Bytes} {rand : UInt8}
    {hook : Node.SendOnIdle} (hnone : n.sender = none) (h : I n)
    (hc : ¬ FeedsConnecting n (.manage received rand hook))
    (hfeed : ∀ m data, m.between = true → m.bus.status ≠ .connecting → I m → I (m.feed data))
    (hupdate : ∀ m, m.between = true → I m → I (m.update rand))
    (hset : ∀ m (data : Bytes) (size : ℕ) (obs : List Observation), m.between = true → I m →
      (∀ o ∈ obs, ∃ v, o = .managed v) →
      I (m.emit ({ m.bus with toSend := data, toSendSize := size }, obs)))
    (henter : ∀ m p, m.sender = none → I m → I (m.moveTo p .entry)) :
    I (n.manage received rand hook) := by
  have hmanage : I (n.manage received rand hook) ∧
      (n.bus.status ≠ .connecting → (n.manage received rand hook).bus.status ≠ .connecting) := by
    apply manage_induction (I := fun m => I m ∧
      (n.bus.status ≠ .connecting → m.bus.status ≠ .connecting)) hnone ⟨h, id⟩
    · rintro hi hne m b hs ⟨hm, hstatus⟩
      have hn : n.bus.status ≠ .connecting := fun hs => hc ⟨hs, hi, hne⟩
      exact ⟨hfeed m _ (between_of_none hs) (hstatus hn) hm,
        fun _ => feed_status_ne_connecting (hstatus hn) _⟩
    · rintro m hs ⟨hm, hstatus⟩
      refine ⟨hupdate m (between_of_none hs) hm, fun hn hback => hstatus hn ?_⟩
      exact (update_case m.bus m.now rand).moves.not_back.2 hback
    · rintro m data size obs hs ⟨hm, hstatus⟩ hobs
      exact ⟨hset m data size obs (between_of_none hs) hm hobs, hstatus⟩
    · rintro m p hs ⟨hm, hstatus⟩
      exact ⟨henter m p hs hm, hstatus⟩
  exact hmanage.1

theorem FrameInv.manage (h : FrameInv n) (hnone : n.sender = none) (received : Bytes)
    (rand : UInt8) (hook : Node.SendOnIdle)
    (hc : ¬ FeedsConnecting n (.manage received rand hook)) :
    FrameInv (n.manage received rand hook) := by
  refine manage_induction_connected hnone h hc (fun m data hb hn hm => hm.feed hb hn data)
    (fun m hb hm => hm.update hb rand) ?_ ?_
  · intro m data size obs hb hm hobs
    refine hm.emit hb ?_ ⟨rfl, rfl, rfl⟩ (hm.frames.neutrals ?_)
    · rw [eventsOf_managed hobs]
      exact .stay _
    · intro o ho
      obtain ⟨v, rfl⟩ := hobs o ho
      trivial
  · intro m p hs hm
    have hb := hm.refines.bracketed
    rw [machineStatus_of_between (between_of_none hs)] at hb
    exact ⟨⟨hb, by simp, by simp, by simp⟩, hm.frames, hm.shielded, hm.connected⟩

theorem QuietStep.obs (h : QuietStep point n n') :
    ∃ l, n'.obs = n.obs ++ l ∧ ∀ o ∈ l, OwnObservation o := by
  obtain ⟨l, htrace, hown⟩ := h.shown
  refine ⟨l, ?_, hown⟩
  unfold Node.obs
  rw [htrace]
  simp [Function.comp_def]

theorem OwnObservation.neutral (h : OwnObservation o) : Neutral o := by
  cases o with
  | event e => cases e <;> trivial
  | delivered b => exact h.elim
  | fed d => exact h.elim
  | _ => trivial

theorem FrameInv.sendStep {packet : Bytes} (h : FrameInv n)
    (hs : n.sender = some (packet, point)) (stat rand : UInt8) :
    FrameInv (n.sendStep packet stat rand point) := by
  have hrefines := h.refines.sendStep hs stat rand
  rcases sendStep_quiet n packet stat rand point with ⟨i, rfl⟩ | hquiet
  · have hb : n.between = true := between_of_some hs
    have hu := h.update hb rand
    exact ⟨hrefines, hu.frames, hu.shielded, hu.connected⟩
  · obtain ⟨l, hobs, hown⟩ := hquiet.obs
    refine ⟨hrefines, ?_, h.shielded.same hquiet.setup, ?_⟩
    · rw [hobs]
      exact h.frames.neutrals fun o ho => (hown o ho).neutral
    · rcases hquiet.status with heq | ⟨-, heq⟩
      · rw [heq]
        exact h.connected
      · rw [heq]
        simp

/-- **One step.**  An action that feeds nothing to a connecting node keeps the frames right. -/
theorem FrameInv.step (h : FrameInv n) (hc : ¬ FeedsConnecting n a)
    (hstep : stepAtomic n a = some n') : FrameInv n' := by
  have hrefines := h.refines.step hstep
  obtain ⟨hcase, hb⟩ := stepAtomic_case hstep
  cases hcase with
  | recByte data => exact h.feed (by simpa using hb) hc data
  | predict =>
    exact h.emit (by simpa using hb) (predict_moves n.bus n.now)
      (predict_sameSetup n.bus n.now) (predict_framesOk n.bus n.now h.frames)
  | update rand => exact h.update (by simpa using hb) rand
  | prewait cycles =>
    exact h.emit (by simpa using hb) (prewait_moves n.bus cycles)
      (prewait_sameSetup n.bus cycles) (by simpa using h.frames)
  | tick us => exact ⟨hrefines, h.frames, h.shielded, h.connected⟩
  | send packet hnone => exact ⟨hrefines, h.frames, h.shielded, h.connected⟩
  | manage received rand hook hnone => exact h.manage hnone received rand hook hc
  | sender stat rand packet point hs => exact h.sendStep hs stat rand

/-! ## A byte fed while connecting -/

theorem obs_prefix_update (n : Node) (rand : UInt8) : n.obs <+: (n.update rand).obs := by
  unfold Node.update
  rw [emit_obs]
  exact List.prefix_append _ _

theorem obs_prefix_feed (n : Node) (data : UInt16) : n.obs <+: (n.feed data).obs := by
  unfold Node.feed
  rw [emit_obs]
  exact List.prefix_append _ _

/-- What was observed stays observed. -/
theorem obs_prefix_manage {received : Bytes} {rand : UInt8} {hook : Node.SendOnIdle}
    (hnone : n.sender = none) : n.obs <+: (n.manage received rand hook).obs := by
  apply manage_induction (I := fun m => n.obs <+: m.obs) hnone List.prefix_rfl
  · intro _ _ m b _ hm
    exact hm.trans (obs_prefix_feed m _)
  · intro m _ hm
    exact hm.trans (obs_prefix_update m rand)
  · intro m data size obs _ hm _
    rw [emit_obs]
    exact hm.trans (List.prefix_append _ _)
  · intro m p _ hm
    exact hm

theorem obs_prefix_step (h : StepCase n a n') : n.obs <+: n'.obs := by
  cases h with
  | recByte data => exact obs_prefix_feed n data
  | predict =>
    rw [emit_obs]
    exact List.prefix_append _ _
  | update rand => exact obs_prefix_update n rand
  | prewait cycles =>
    rw [emit_obs]
    exact List.prefix_append _ _
  | tick us => exact List.prefix_rfl
  | send packet => exact List.prefix_rfl
  | manage received rand hook hnone => exact obs_prefix_manage hnone
  | sender stat rand packet point hs =>
    rcases sendStep_quiet n packet stat rand point with ⟨i, rfl⟩ | hquiet
    · exact obs_prefix_update n rand
    · obtain ⟨l, hobs, -⟩ := hquiet.obs
      rw [hobs]
      exact List.prefix_append _ _

/-- Every byte is delivered in an open frame. -/
def DeliveredInside (obs : List Observation) : Prop :=
  AtEach (fun before o => ∀ b, o = .delivered b → Bracket.receive.Open (eventsOf before)) obs

theorem DeliveredInside.of_prefix {m : List Observation} (h : DeliveredInside m) (hpre : l <+: m) :
    DeliveredInside l := by
  obtain ⟨t, rfl⟩ := hpre
  exact h.of_append

/-- A byte fed while connecting is delivered in no frame. -/
theorem not_deliveredInside_feed (h : FrameInv n) (hb : n.between = true)
    (hc : n.bus.status = .connecting) (data : UInt16) : ¬ DeliveredInside (n.feed data).obs := by
  intro hinside
  have hobs : (n.feed data).obs = n.obs ++ [.delivered data.toUInt8] ++ [.fed data] := by
    simp [Node.feed, Bus.ubOutRecByte, Bus.ubPredictTransmissionStart, hc]
  rw [hobs] at hinside
  have hopen := (atEach_concat.mp hinside.of_append).2 _ rfl
  rw [← h.open_iff hb, hc] at hopen
  cases hopen

/-- A byte fed to a connecting node is passed on outside of a frame. -/
theorem not_deliveredInside_of_feedsConnecting (h : FrameInv n) (hc : FeedsConnecting n a)
    (hstep : stepAtomic n a = some n') : ¬ DeliveredInside n'.obs := by
  obtain ⟨hcase, hb⟩ := stepAtomic_case hstep
  cases hcase with
  | recByte data => exact not_deliveredInside_feed h (by simpa using hb) hc data
  | manage received rand hook hnone =>
    obtain ⟨hstatus, hi, hne⟩ := hc
    obtain ⟨b, rest, rfl⟩ := List.exists_cons_of_ne_nil hne
    -- the first byte of `ub_try_receive` is the one; the rest of the call adds to it
    have hfirst := not_deliveredInside_feed h (between_of_none hnone) hstatus b.toUInt16
    have hrest : (n.feed b.toUInt16).obs <+: (n.tryReceive (b :: rest)).obs := by
      have := tryReceive_induction
        (I := fun m => (n.feed b.toUInt16).obs <+: m.obs)
        (fun m c hm => hm.trans (obs_prefix_feed m _)) rest List.prefix_rfl
      exact this
    have hsender : (n.tryReceive (b :: rest)).sender = none :=
      tryReceive_induction (I := fun m => m.sender = none) (fun _ _ hm => hm) _ hnone
    have hmanage : n.manage (b :: rest) rand hook =
        (n.tryReceive (b :: rest)).manage [] rand hook := by
      have hpolled : (if n.bus.interrupt then n else n.tryReceive (b :: rest)) =
          n.tryReceive (b :: rest) := by rw [if_neg (by simp [hi])]
      have hempty : (if (n.tryReceive (b :: rest)).bus.interrupt then n.tryReceive (b :: rest)
          else (n.tryReceive (b :: rest)).tryReceive []) = n.tryReceive (b :: rest) := by
        split <;> rfl
      unfold Node.manage
      rw [hpolled, hempty]
    intro hinside
    rw [hmanage] at hinside
    exact hfirst (hinside.of_prefix (hrest.trans (obs_prefix_manage hsender)))
  | predict | update rand | prewait cycles | tick us | send packet hnone
  | sender stat rand packet point hs => exact hc.elim

theorem frameInv_init (byteTimeUs packetTimeout : ℕ) (cfg : UInt8) (wi : ℤ) (time : ℕ)
    (hcfg : cfg &&& cfgSkipCollisionData ≠ 0 ∨ cfg &&& cfgReadWithInterrupt = 0) :
    FrameInv (Node.init byteTimeUs packetTimeout cfg wi time) := by
  refine ⟨refines_init byteTimeUs packetTimeout cfg wi time, FramesOk.nil, ?_, ?_⟩
  · have hbus : (Node.init byteTimeUs packetTimeout cfg wi time).bus.cfg = cfg := rfl
    unfold Shielded Bus.interrupt Bus.hasCfg
    rw [hbus]
    simpa using hcfg
  · exact UartbusStatus.noConfusion

/-- **Bytes and frames.**  With `ub_cfg_skip_collision_data` or without interrupt reads, the bytes
of a run of atomic calls from `ub_init` are delivered inside frames exactly when no byte is fed
while the node is connecting.
SOURCE: ub.c:262-288, 442-451; ub_arduino.cpp:6-34 -/
theorem delivered_inside_iff (byteTimeUs packetTimeout : ℕ) (cfg : UInt8) (wi : ℤ) (time : ℕ)
    (hcfg : cfg &&& cfgSkipCollisionData ≠ 0 ∨ cfg &&& cfgReadWithInterrupt = 0)
    (acts : List LinkAction) (n : Node)
    (hrun : run stepAtomic (Node.init byteTimeUs packetTimeout cfg wi time) acts = some n) :
    FramesOk n.obs ↔
      Along stepAtomic (fun m a => ¬ FeedsConnecting m a)
        (Node.init byteTimeUs packetTimeout cfg wi time) acts := by
  have key : (Along stepAtomic (fun m a => ¬ FeedsConnecting m a)
        (Node.init byteTimeUs packetTimeout cfg wi time) acts ∧ FrameInv n) ∨
      (¬ Along stepAtomic (fun m a => ¬ FeedsConnecting m a)
        (Node.init byteTimeUs packetTimeout cfg wi time) acts ∧ ¬ DeliveredInside n.obs) := by
    -- from the first action that feeds a connecting node on the property is lost
    induction acts using List.reverseRecOn generalizing n with
    | nil =>
      cases hrun
      exact .inl ⟨trivial, frameInv_init byteTimeUs packetTimeout cfg wi time hcfg⟩
    | append_singleton acts a ih =>
      obtain ⟨m, hm, hstep⟩ := (run_concat_eq_some stepAtomic _ n a acts).mp hrun
      rw [along_concat hm]
      rcases ih m hm with ⟨halong, hinv⟩ | ⟨halong, hnot⟩
      · by_cases hc : FeedsConnecting m a
        · exact .inr ⟨fun h => h.2 hc, not_deliveredInside_of_feedsConnecting hinv hc hstep⟩
        · exact .inl ⟨⟨halong, hc⟩, hinv.step hc hstep⟩
      · refine .inr ⟨fun h => halong h.1, fun hinside => hnot ?_⟩
        exact hinside.of_prefix (obs_prefix_step (stepAtomic_case hstep).1)
  rcases key with ⟨halong, hinv⟩ | ⟨halong, hnot⟩
  · exact iff_of_true hinv.frames halong
  · exact iff_of_false (fun h => hnot h.inside) halong

/-- Two bytes received after the node has connected, and the end of their frame. -/
theorem delivered_inside_two_bytes :
    ∃ n, run stepAtomic (Node.init 10 3 12 0 0)
        [.tick 100, .update 0, .recByte 7, .recByte 8, .tick 100, .update 0] = some n ∧
      deliveredOf n.obs = [7, 8] ∧ FramesOk n.obs := by
  refine exists_eq_some (Q := fun n => deliveredOf n.obs = [7, 8]) (by decide +kernel)
    fun n hrun hbytes => ⟨hbytes, ?_⟩
  exact (delivered_inside_iff 10 3 12 0 0 (by decide) _ n hrun).mpr (by decide +kernel)

/-- The first byte after `ub_init` is delivered without any event. -/
theorem delivered_outside_connecting :
    ∃ n, run stepAtomic (Node.init 10 3 12 0 0) [.recByte 7] = some n ∧
      n.obs = [.delivered 7, .fed 7] ∧ ¬ FramesOk n.obs := by
  refine exists_eq_some (Q := fun n => n.obs = [.delivered 7, .fed 7]) (by decide +kernel)
    fun n _ hobs => ⟨hobs, ?_⟩
  rw [hobs]
  exact not_framesOk_of_delivered (l := []) (by decide)

end Uartbus.Analysis
