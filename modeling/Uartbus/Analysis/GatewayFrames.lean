import Uartbus.Analysis.Frames
import Uartbus.Analysis.Framing
import Uartbus.Model.Gateway

/-!
# What the bus carried and what the PC sees

Three machines read the observations of the link layer: `collect` says which frames were
completed and which one is open, the callbacks of the gateway write bytes to the PC, and the PC
cuts packets out of these bytes.  `Seen` ties them together: the flag `receive` says whether a
frame is open, and the cutter holds the bytes of the open frame.  Each call of the link layer
keeps this (`RecByteCase.seen`, `UpdateCase.seen`), so the PC gets the completed frames
(`pc_sees_frames`).  A byte that comes while the node is connecting is stopped by the flag.

The exception is the start of `ub_send_packet`.  A frame that begins between its test of the
status and its assignment never gets a `receive_end`: the flag stays set, and the PC gets the bytes
of that frame in front of the next one (`frame_joined_to_next`).
-/

set_option autoImplicit false

namespace Uartbus.Analysis

open Lib Interface Model

variable {bytes : Bytes} {l : List Observation} {o : Observation} {n : Node}

/-- The bytes given to `ub_out_rec_byte` since the `receive_start`, if a frame is open; a
`receive_end` gives the frame. -/
def collect (frame : Option Bytes) : Observation → Option Bytes × List Bytes
  | .event .receiveStart => (some [], [])
  | .event .receiveEnd => (none, frame.toList)
  | .fed data => (frame.map (· ++ [data.toUInt8]), [])
  | _ => (frame, [])

/-- The completed receive frames. -/
def completedFrames (obs : List Observation) : List Bytes := (transduce collect none obs).2

/-- The gateway and the PC know what was collected. -/
structure Seen (obs : List Observation) (frame : Option Bytes) : Prop where
  collected : (transduce collect none obs).1 = frame
  flag : (transduce PcWriter.observe ⟨false⟩ obs).1 = ⟨frame.isSome⟩
  cut : (FramedPacketCutter.new 0xff).feedBytes (PcWriter.written obs) =
    (cutterOf 0xff (false, frame.getD []), completedFrames obs)

/-! ## Observations -/

section Observations

variable {obs : List Observation} {frame : Option Bytes}

theorem Seen.nil : Seen [] none := ⟨rfl, rfl, rfl⟩

/-- More observations: what is collected, what is written, and what is cut out of it. -/
theorem Seen.append (h : Seen obs frame) {frame' : Option Bytes} {frames : List Bytes}
    (hcollect : transduce collect frame l = (frame', frames))
    (hwrite : transduce PcWriter.observe ⟨frame.isSome⟩ l = (⟨frame'.isSome⟩, bytes))
    (hcut : (cutterOf 0xff (false, frame.getD [])).feedBytes bytes =
      (cutterOf 0xff (false, frame'.getD []), frames)) : Seen (obs ++ l) frame' := by
  have hwritten : PcWriter.written (obs ++ l) = PcWriter.written obs ++ bytes := by
    unfold PcWriter.written
    rw [transduce_append, h.flag, hwrite]
  have hframes : completedFrames (obs ++ l) = completedFrames obs ++ frames := by
    unfold completedFrames
    rw [transduce_append, h.collected, hcollect]
  refine ⟨?_, ?_, ?_⟩
  · rw [transduce_append, h.collected, hcollect]
  · rw [transduce_append, h.flag, hwrite]
  · have hold := h.cut
    unfold FramedPacketCutter.feedBytes at *
    rw [hwritten, hframes, transduce_append, hold, hcut]

theorem collect_neutral (ho : Neutral o) (frame : Option Bytes) :
    collect frame o = (frame, []) := by
  cases o with
  | event e => cases e <;> first | rfl | exact False.elim ho
  | fed data => exact False.elim ho
  | _ => rfl

theorem observe_neutral (ho : Neutral o) (w : PcWriter) : w.observe o = (w, []) := by
  cases o with
  | event e => cases e <;> first | rfl | exact False.elim ho
  | delivered b => exact False.elim ho
  | _ => rfl

/-- What has to do with no frame is not seen. -/
theorem Seen.neutrals (h : Seen obs frame) (hl : ∀ o ∈ l, Neutral o) : Seen (obs ++ l) frame :=
  h.append (transduce_idle fun o ho => collect_neutral (hl o ho) frame)
    (transduce_idle fun o ho => observe_neutral (hl o ho) _) rfl

/-- A byte that comes outside every frame is written to nobody, delivered or not. -/
theorem Seen.fed (h : Seen obs none) (data : UInt16) : Seen (obs ++ [.fed data]) none :=
  h.append rfl rfl rfl

theorem Seen.outside (h : Seen obs none) (data : UInt16) :
    Seen (obs ++ [.delivered data.toUInt8, .fed data]) none :=
  h.append rfl rfl rfl

theorem Seen.receiveStart (h : Seen obs none) : Seen (obs ++ [.event .receiveStart]) (some []) :=
  h.append rfl rfl rfl

theorem Seen.received (h : Seen obs (some bytes)) (data : UInt16) :
    Seen (obs ++ [.delivered data.toUInt8, .fed data]) (some (bytes ++ [data.toUInt8])) := by
  have hwrite : transduce PcWriter.observe ⟨true⟩ [.delivered data.toUInt8, .fed data] =
      (⟨true⟩, stuff 0xff [data.toUInt8]) := by
    by_cases hesc : data.toUInt8 = 0xff <;>
      simp [transduce_cons, PcWriter.observe, PcWriter.ubRecByte, stuff, packetEscape, hesc]
  exact h.append rfl hwrite (feedBytes_stuff 0xff bytes [data.toUInt8])

theorem Seen.receiveEnd (h : Seen obs (some bytes)) : Seen (obs ++ [.event .receiveEnd]) none :=
  h.append rfl rfl (feedBytes_end 0xff bytes)

end Observations

/-! ## Calls -/

/-- A frame is seen as open exactly in `receiving`. -/
def SeenIn (status : UartbusStatus) (obs : List Observation) : Prop :=
  ∃ frame, Seen obs frame ∧ (frame.isSome = true ↔ status = .receiving)

section Calls

variable {bus bus' : Bus} {now : ℕ} {obs more : List Observation}

/-- No frame is open in another status. -/
theorem SeenIn.closed (h : SeenIn bus.status obs) (hs : bus.status ≠ .receiving) :
    Seen obs none := by
  obtain ⟨frame, hseen, hiff⟩ := h
  cases frame with
  | none => exact hseen
  | some bytes => exact absurd (hiff.mp rfl) hs

theorem SeenIn.opened (h : SeenIn bus.status obs) (hs : bus.status = .receiving) :
    ∃ bytes, Seen obs (some bytes) := by
  obtain ⟨frame, hseen, hiff⟩ := h
  obtain ⟨bytes, rfl⟩ := Option.isSome_iff_exists.mp (hiff.mpr hs)
  exact ⟨bytes, hseen⟩

theorem Seen.seenIn_none {status : UartbusStatus} (h : Seen obs none) (hs : status ≠ .receiving) :
    SeenIn status obs :=
  ⟨none, h, by simpa using hs⟩

theorem Seen.seenIn_some (h : Seen obs (some bytes)) : SeenIn .receiving obs :=
  ⟨some bytes, h, by simp⟩

/-- What the PC has seen of a byte that comes in. -/
theorem RecByteCase.seen {data : UInt16} (h : RecByteCase bus now data bus' more)
    (hseen : SeenIn bus.status obs) (hcfg : Shielded bus) : SeenIn bus'.status (obs ++ more) := by
  have hbusy : ∀ {s : UartbusStatus}, s = .sending ∨ s = .collision → s ≠ .receiving := by
    rintro s (rfl | rfl) <;> simp
  cases h with
  | polled h hi | echoed h hi hw =>
    exact ((hseen.closed (hbusy h)).fed data).seenIn_none (hbusy h)
  | collides h hi =>
    rw [hcfg.collisionData hi, List.nil_append, ← List.append_assoc]
    have hneutral : ∀ o ∈ [Observation.event .collisionStart, .event .sendEnd], Neutral o :=
      List.forall_mem_cons.mpr ⟨trivial, List.forall_mem_singleton.mpr trivial⟩
    have hclosed := hseen.closed (hbusy (.inl h))
    exact ((hclosed.neutrals hneutral).fed data).seenIn_none (by simp)
  | disturbed h hi =>
    rw [hcfg.collisionData hi, List.nil_append]
    exact ((hseen.closed (hbusy (.inr h))).fed data).seenIn_none (hbusy (.inr h))
  | begins h =>
    have hclosed : Seen obs none := by
      apply hseen.closed
      rcases h with h | h <;> simp [h]
    have hframe := hclosed.receiveStart.received data
    rw [List.append_assoc] at hframe
    exact hframe.seenIn_some
  | outside h =>
    have hs : bus.status ≠ .receiving := by
      rcases h with h | h <;> simp [h]
    exact ((hseen.closed hs).outside data).seenIn_none hs
  | inside h =>
    obtain ⟨bytes, hopen⟩ := hseen.opened h
    have hframe := (hopen.received data).seenIn_some
    rwa [← h] at hframe

/-- What the PC has seen of an update. -/
theorem UpdateCase.seen (h : UpdateCase bus now bus' more) (hseen : SeenIn bus.status obs) :
    SeenIn bus'.status (obs ++ more) := by
  -- from a status without a frame to another one, with nothing a frame has to do with
  have hmove : ∀ {s : UartbusStatus}, bus.status ≠ .receiving → s ≠ .receiving →
      (∀ o ∈ more, Neutral o) → SeenIn s (obs ++ more) := by
    intro s hs hs' hneutral
    exact ((hseen.closed hs).neutrals hneutral).seenIn_none hs'
  cases h with
  | unchanged h => rwa [List.append_nil]
  | endReceive wi h =>
    obtain ⟨bytes, hopen⟩ := hseen.opened h
    exact hopen.receiveEnd.seenIn_none (by simp)
  | endWait h =>
    exact hmove (by simp [h]) (by simp)
      (by simp)
  | missed h =>
    exact hmove (by simp [h]) (by simp)
      (List.forall_mem_cons.mpr ⟨trivial, List.forall_mem_singleton.mpr trivial⟩)
  | success wi h =>
    exact hmove (by simp [h]) (by simp)
      (List.forall_mem_cons.mpr ⟨trivial, List.forall_mem_singleton.mpr trivial⟩)
  | endCollision wi h =>
    exact hmove (by simp [h]) (by simp)
      (List.forall_mem_singleton.mpr trivial)
  | connect h =>
    refine hmove ?_ (by simp) (by simp)
    rcases h with h | h <;> simp [h]

theorem predict_seen (hseen : SeenIn bus.status obs) :
    SeenIn (bus.ubPredictTransmissionStart now).1.status
      (obs ++ (bus.ubPredictTransmissionStart now).2) := by
  unfold Bus.ubPredictTransmissionStart
  by_cases h : bus.status = .idle ∨ bus.status = .fairwait
  · rw [if_pos h]
    have hs : bus.status ≠ .receiving := by
      rcases h with h | h <;> simp [h]
    exact (hseen.closed hs).receiveStart.seenIn_some
  · rw [if_neg h, List.append_nil]
    exact hseen

theorem prewait_seen (cycles : UInt8) (hseen : SeenIn bus.status obs) :
    SeenIn (bus.ubPrewait cycles).status obs := by
  unfold Bus.ubPrewait
  by_cases h : bus.status = .idle ∨ bus.status = .fairwait
  · rw [if_pos h]
    apply Seen.seenIn_none (hseen.closed _) (by simp)
    rcases h with h | h <;> simp [h]
  · rw [if_neg h]
    exact hseen

end Calls

/-! ## Runs -/

/-- `ub_send_packet` takes the bus although a frame has begun since it found the bus idle: the
receive interrupt is not kept out between the test of the status and its assignment.
SOURCE: ub.c:300-305, uartbus_connector.cpp:147-160 -/
def overridesFrame (n : Node) : LinkAction → Bool
  | .sender _ _ =>
    match n.sender with
    | some (_, .checked) => decide (n.bus.status = .receiving)
    | _ => false
  | _ => false

/-- What the gateway and the PC know holds in the present status. -/
structure SeenInv (n : Node) : Prop where
  seen : SeenIn n.bus.status n.obs
  shielded : Shielded n.bus

theorem SeenInv.feed (h : SeenInv n) (data : UInt16) : SeenInv (n.feed data) := by
  have hcase := recByte_case n.bus n.now data
  refine ⟨?_, h.shielded.same hcase.sameSetup⟩
  unfold Node.feed
  rw [emit_obs]
  exact hcase.seen h.seen h.shielded

theorem SeenInv.update (h : SeenInv n) (rand : UInt8) : SeenInv (n.update rand) := by
  have hcase := update_case n.bus n.now rand
  refine ⟨?_, h.shielded.same hcase.sameSetup⟩
  unfold Node.update
  rw [emit_obs]
  exact hcase.seen h.seen

theorem SeenInv.manage (h : SeenInv n) (hnone : n.sender = none) (received : Bytes)
    (rand : UInt8) (hook : Node.SendOnIdle) : SeenInv (n.manage received rand hook) := by
  apply manage_induction (I := SeenInv) hnone h
  · intro _ _ m b _ hm
    exact hm.feed _
  · intro m _ hm
    exact hm.update rand
  · intro m data size obs _ hm hobs
    refine ⟨?_, hm.shielded⟩
    obtain ⟨frame, hseen, hiff⟩ := hm.seen
    rw [emit_obs]
    refine ⟨frame, hseen.neutrals fun o ho => ?_, hiff⟩
    obtain ⟨v, rfl⟩ := hobs o ho
    trivial
  · intro m p _ hm
    exact ⟨hm.seen, hm.shielded⟩

/-- A step of `ub_send_packet`: it takes the bus only when no frame is open. -/
theorem SeenInv.sendStep {packet : Bytes} {point : SendPoint} (h : SeenInv n)
    (hs : n.sender = some (packet, point)) (stat rand : UInt8)
    (hkeep : overridesFrame n (.sender stat rand) = false) :
    SeenInv (n.sendStep packet stat rand point) := by
  rcases sendStep_quiet n packet stat rand point with ⟨i, rfl⟩ | hquiet
  · have hu := h.update rand
    exact ⟨hu.seen, hu.shielded⟩
  · obtain ⟨l, hobs, hown⟩ := hquiet.obs
    refine ⟨?_, h.shielded.same hquiet.setup⟩
    rw [hobs]
    have hneutral : ∀ o ∈ l, Neutral o := fun o ho => (hown o ho).neutral
    rcases hquiet.status with heq | ⟨rfl, heq⟩
    · obtain ⟨frame, hseen, hiff⟩ := h.seen
      rw [heq]
      exact ⟨frame, hseen.neutrals hneutral, hiff⟩
    · have hnot : n.bus.status ≠ .receiving := by simpa [overridesFrame, hs] using hkeep
      rw [heq]
      exact ((h.seen.closed hnot).neutrals hneutral).seenIn_none (by simp)

/-- **One step**, with received bytes and other calls between any two accesses of
`ub_send_packet`. -/
theorem SeenInv.step {n' : Node} {a : LinkAction} (h : SeenInv n)
    (hkeep : overridesFrame n a = false) (hstep : Model.step n a = some n') : SeenInv n' := by
  cases step_case hstep with
  | recByte data => exact h.feed data
  | predict =>
    refine ⟨?_, h.shielded.same (predict_sameSetup n.bus n.now)⟩
    rw [emit_obs]
    exact predict_seen h.seen
  | update rand => exact h.update rand
  | prewait cycles =>
    refine ⟨?_, h.shielded.same (prewait_sameSetup n.bus cycles)⟩
    rw [emit_obs, List.append_nil]
    exact prewait_seen cycles h.seen
  | tick us => exact ⟨h.seen, h.shielded⟩
  | send packet hnone => exact ⟨h.seen, h.shielded⟩
  | manage received rand hook hnone => exact h.manage hnone received rand hook
  | sender stat rand packet point hs => exact h.sendStep hs stat rand hkeep

end Uartbus.Analysis
