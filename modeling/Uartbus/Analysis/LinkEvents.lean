import Uartbus.Analysis.LinkCalls

/-!
# Events and frames of a node

In every run with atomic calls the node makes the moves of the status machine, so its events
are bracketed (`events_bracketed`).  The refinement holds in the prologue of `ub_send_packet`
as well, when the status is already `sending` and the start event is still to come: there the
machine is taken to be idle (`machineStatus`).
-/

set_option autoImplicit false

namespace Uartbus.Analysis

open Lib Interface Model

variable {n : Node} {packet : Bytes} {point : SendPoint}

/-- The status of the machine the node refines. -/
def machineStatus (n : Node) : UartbusStatus :=
  match n.sender with
  | some (_, .statusSet) => .idle
  | some (_, .activityUpdated) => .idle
  | _ => n.bus.status

/-- The refinement, with what the prologue of `ub_send_packet` knows. -/
structure Refines (n : Node) : Prop where
  bracketed : Bracketed (eventsOf n.obs) (machineStatus n)
  checked : ∀ p, n.sender = some (p, .checked) → n.bus.status = .idle
  statusSet : ∀ p, n.sender = some (p, .statusSet) → n.bus.status = .sending
  activityUpdated : ∀ p, n.sender = some (p, .activityUpdated) → n.bus.status = .sending

theorem between_of_none (h : n.sender = none) : n.between = true := by
  unfold Node.between
  rw [h]

theorem between_of_some (h : n.sender = some (packet, point)) :
    n.between = point.interruptible := by
  unfold Node.between
  rw [h]

/-- Outside the prologue the machine has the status of the node. -/
theorem machineStatus_of_between (h : n.between = true) : machineStatus n = n.bus.status := by
  unfold machineStatus
  cases hs : n.sender with
  | none => rfl
  | some pp =>
    obtain ⟨p, point⟩ := pp
    rw [between_of_some hs] at h
    cases point <;> first | rfl | exact absurd h Bool.false_ne_true

/-- A node between calls refines the machine when its events are bracketed. -/
theorem refines_of_between (h : n.between = true) (hb : Bracketed (eventsOf n.obs) n.bus.status) :
    Refines n := by
  refine ⟨by rwa [machineStatus_of_between h], fun p hs => ?_, fun p hs => ?_, fun p hs => ?_⟩ <;>
    exact absurd h (by rw [between_of_some hs]; decide)

/-- A call between the calls makes a move of the machine. -/
theorem Refines.emit {r : Bus × List Observation} (h : Refines n) (hbetween : n.between = true)
    (hmove : Moves n.bus.status (eventsOf r.2) r.1.status) : Refines (n.emit r) := by
  apply refines_of_between
  · exact hbetween
  · have hb := h.bracketed
    rw [machineStatus_of_between hbetween] at hb
    rw [emit_obs, eventsOf_append, emit_bus]
    exact hb.move hmove

theorem Refines.feed (h : Refines n) (hbetween : n.between = true) (data : UInt16) :
    Refines (n.feed data) :=
  h.emit hbetween (recByte_case n.bus n.now data).moves

theorem Refines.update (h : Refines n) (hbetween : n.between = true) (rand : UInt8) :
    Refines (n.update rand) :=
  h.emit hbetween (update_case n.bus n.now rand).moves

theorem Refines.manage (h : Refines n) (hnone : n.sender = none) (received : Bytes)
    (rand : UInt8) (hook : Node.SendOnIdle) : Refines (n.manage received rand hook) := by
  apply manage_induction (I := Refines) hnone h
  · intro _ _ m b hs hm
    exact hm.feed (between_of_none hs) b.toUInt16
  · intro m hs hm
    exact hm.update (between_of_none hs) rand
  · intro m data size obs hs hm hobs
    apply hm.emit (between_of_none hs)
    rw [eventsOf_managed hobs]
    exact .stay _
  · intro m p hs hm
    have hb := hm.bracketed
    rw [machineStatus_of_between (between_of_none hs)] at hb
    exact ⟨hb, by simp, by simp, by simp⟩

/-- The steps of `ub_send_packet`. -/
theorem Refines.sendStep (h : Refines n) (hs : n.sender = some (packet, point))
    (stat rand : UInt8) :
    Refines (n.sendStep packet stat rand point) := by
  have hb := h.bracketed
  unfold machineStatus at hb
  rw [hs] at hb
  -- a step without an event and without a change of the status
  have hmove : ∀ {m : Node} {q : SendPoint}, Bracketed (eventsOf m.obs) m.bus.status →
      q ≠ .checked → q ≠ .statusSet → q ≠ .activityUpdated → Refines (m.moveTo packet q) := by
    intro m q hm h₁ h₂ h₃
    refine ⟨?_, by simp [h₁], by simp [h₂], by simp [h₃]⟩
    unfold machineStatus
    cases q <;> first | exact hm | contradiction
  have hleave : ∀ (v : ℤ), Bracketed (eventsOf n.obs) n.bus.status → Refines (n.leave v) := by
    intro v hn
    apply refines_of_between rfl
    simpa [eventsOf] using hn
  have hcase := sendStep_case n packet stat rand point
  generalize n.sendStep packet stat rand point = m at hcase ⊢
  cases hcase with
  | accepts hidle =>
    refine ⟨?_, by simpa using hidle, by simp, by simp⟩
    simpa [machineStatus, eventsOf] using hb
  | setsStatus =>
    have hidle := h.checked packet hs
    refine ⟨?_, by simp, by simp, by simp⟩
    simp only [hidle] at hb
    simpa [machineStatus, eventsOf] using hb
  | storesTime =>
    have hsend := h.statusSet packet hs
    refine ⟨?_, by simp, by simp, ?_⟩
    · simpa [machineStatus, eventsOf] using hb
    · simpa [Bus.updateLastActivityNow] using hsend
  | starts =>
    have hsend := h.activityUpdated packet hs
    apply hmove _ (by decide) (by decide) (by decide)
    rw [emit_obs, eventsOf_append, emit_bus, hsend]
    exact hb.move .startSend
  | updates i =>
    apply hmove _ (by simp) (by simp) (by simp)
    unfold Node.update
    rw [emit_obs, eventsOf_append, emit_bus]
    exact hb.move (update_case n.bus n.now rand).moves
  | clearsWi | expects | passes =>
    apply hmove _ (by simp) (by simp) (by simp)
    simpa [eventsOf] using hb
  | busy | polledEnd | collided | complete | fails => exact hleave _ hb
  | polls | polledNext | stillSending | stopped | unechoed | echoed | next | sent | reads
  | received => exact hmove hb (by simp) (by simp) (by simp)

/-- **One step refines the machine.** -/
theorem Refines.step {n' : Node} {a : LinkAction} (h : Refines n)
    (hstep : stepAtomic n a = some n') :
    Refines n' := by
  obtain ⟨hcase, hb⟩ := stepAtomic_case hstep
  cases hcase with
  | recByte data => exact h.feed (by simpa using hb) data
  | predict => exact h.emit (by simpa using hb) (predict_moves n.bus n.now)
  | update rand => exact h.update (by simpa using hb) rand
  | prewait cycles => exact h.emit (by simpa using hb) (prewait_moves n.bus cycles)
  | tick us => exact ⟨h.bracketed, h.checked, h.statusSet, h.activityUpdated⟩
  | send packet hnone =>
    have hbr := h.bracketed
    rw [machineStatus_of_between (between_of_none hnone)] at hbr
    exact ⟨hbr, by simp, by simp, by simp⟩
  | manage received rand hook hnone => exact h.manage hnone received rand hook
  | sender stat rand packet point hs => exact h.sendStep hs stat rand

theorem refines_init (byteTimeUs packetTimeout : ℕ) (cfg : UInt8) (wi : ℤ) (time : ℕ) :
    Refines (Node.init byteTimeUs packetTimeout cfg wi time) := by
  have hstart : Bracketed [] .connecting := by
    intro k
    cases k <;> exact ⟨trivial, by decide⟩
  exact refines_of_between rfl hstart

/-- **The events of a node.**  In every run of atomic calls from `ub_init` the start and end events
of each pair alternate, a start first; between the calls the status is the one of a pair exactly
when its last event is a start.
SOURCE: ub.c:140-229, 234-288, 298-387 -/
theorem events_bracketed (byteTimeUs packetTimeout : ℕ) (cfg : UInt8) (wi : ℤ) (time : ℕ)
    (acts : List LinkAction) (n : Node)
    (hrun : run stepAtomic (Node.init byteTimeUs packetTimeout cfg wi time) acts = some n) :
    (∀ k : Bracket, Alternates k.start k.stop (k.select (eventsOf n.obs))) ∧
      (n.between = true →
        ∀ k : Bracket, n.bus.status = k.status ↔
          (k.select (eventsOf n.obs)).getLast? = some k.start) := by
  have h : Refines n :=
    run_invariant_all (fun _ _ _ hm hstep => hm.step hstep)
      (refines_init byteTimeUs packetTimeout cfg wi time) hrun
  refine ⟨fun k => (h.bracketed k).1, fun hbetween k => ?_⟩
  rw [← machineStatus_of_between hbetween]
  exact (h.bracketed k).2

/-- A packet sent up to its second byte, whose echo is another byte: `send_start`, then
`collision_start` and `send_end` at once. -/
theorem events_bracketed_collision :
    ∃ n, run stepAtomic (Node.init 10 3 12 0 0)
        ([.tick 100, .update 0, .send [7, 8]] ++ List.replicate 11 (.sender 0 0) ++
          [.recByte 7] ++ List.replicate 7 (.sender 0 0) ++ [.recByte 9]) = some n ∧
      eventsOf n.obs = [.sendStart, .collisionStart, .sendEnd] ∧ n.bus.status = .collision ∧
      (Bracket.collision.select (eventsOf n.obs)).getLast? = some .collisionStart := by
  refine exists_eq_some (Q := fun n => eventsOf n.obs = [.sendStart, .collisionStart, .sendEnd] ∧
    n.bus.status = .collision ∧ n.between = true) (by decide +kernel) ?_
  rintro n hrun ⟨hevents, hstatus, hbetween⟩
  refine ⟨hevents, hstatus, ?_⟩
  exact ((events_bracketed 10 3 12 0 0 _ n hrun).2 hbetween .collision).mp hstatus

end Uartbus.Analysis
