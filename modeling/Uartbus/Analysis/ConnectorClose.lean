import Uartbus.Analysis.Reconnect
import Uartbus.Lib.StopFlag

/-!
# Closing the connector

A call that has found `run` to be true goes on to its report whatever `close` does in between
(`AboutToReport`), and its report opens a stream.  So `close` is final when no call is there at the
moment it takes the child: from then on no call gets there any more (`StopFlag`).
-/

set_option autoImplicit false

namespace Uartbus.Analysis

open Lib Model

/-- The call has looked at `run` for the last time before it reports a broken stream. -/
def AboutToReport : ConnectorLocal → Prop
  | .sendWriting _ | .sendReporting .. | .loopReporting .. => True
  | _ => False

instance decidableAboutToReport : ∀ l, Decidable (AboutToReport l)
  | .sendWriting _ | .sendReporting .. | .loopReporting .. => isTrue trivial
  | .sendChecking _ | .sendEnded _ | .listenStarting | .listenSpawning | .listenEnded _
  | .loopWaiting _ | .loopChecking _ | .loopTaking _ | .loopReading .. | .loopBroken ..
  | .loopEnded | .closing | .closingChild | .closeEnded => isFalse id

/-- A `close` that has stored `run`. -/
def HasStopped (l : ConnectorLocal) : Prop := l = .closingChild ∨ l = .closeEnded

instance decidableHasStopped (l : ConnectorLocal) : Decidable (HasStopped l) :=
  inferInstanceAs (Decidable (_ ∨ _))

/-- `close` takes the child while no call is committed to its report, and `start_listen` does not
set `run` again after a `close`. -/
def ClosesAlone (p : ConnectorPool) : ConnectorLocal → Prop
  | .closingChild => ∀ c ∈ p.calls, ¬ AboutToReport c.2
  | .listenStarting => ∀ c ∈ p.calls, ¬ HasStopped c.2
  | _ => True

instance decidableClosesAlone (p : ConnectorPool) : ∀ l, Decidable (ClosesAlone p l)
  | .closingChild => inferInstanceAs (Decidable (∀ c ∈ p.calls, ¬ AboutToReport c.2))
  | .listenStarting => inferInstanceAs (Decidable (∀ c ∈ p.calls, ¬ HasStopped c.2))
  | .sendChecking _ | .sendWriting _ | .sendReporting .. | .sendEnded _ | .listenSpawning
  | .listenEnded _ | .loopWaiting _ | .loopChecking _ | .loopTaking _ | .loopReading ..
  | .loopBroken .. | .loopReporting .. | .loopEnded | .closing | .closeEnded => isTrue trivial

/-! ## What a move can do -/

/-- What matters here of a move: `run` is set only by `start_listen`, a call commits itself only
while `run` is true, and only a committed call leaves another child in the stream. -/
structure GuardedMove (s : ConnectorShared) (l : ConnectorLocal) (s' : ConnectorShared)
    (l' : ConnectorLocal) : Prop where
  run : s'.run = true → s.run = true ∨ l = .listenStarting
  commits : AboutToReport l' → s.run = true ∨ AboutToReport l
  child : s'.io.child = s.io.child ∨ s'.io.child = none ∨ AboutToReport l
  stops : l' = .closingChild → s'.run = false
  ends : l' = .closeEnded → l = .closingChild ∧ s'.io.child = none

variable {onClosed : OnStreamClosed} {choice : ConnectorChoice} {s s' : ConnectorShared}
  {l l' : ConnectorLocal} {events : List ConnectorEvent}

/-- A move that leaves `run` and the child alone, to a place that is neither committed nor in
`close`. -/
theorem GuardedMove.plain (hrun : s'.run = s.run) (hchild : s'.io.child = s.io.child)
    (hcommits : ¬ AboutToReport l') (hclose : ¬ HasStopped l') : GuardedMove s l s' l' where
  run h := .inl (hrun ▸ h)
  commits h := absurd h hcommits
  child := .inl hchild
  stops h := absurd (.inl h) hclose
  ends h := absurd (.inr h) hclose

/-- A move of a committed call. -/
theorem GuardedMove.reporting (hl : AboutToReport l) (hrun : s'.run = s.run)
    (hclose : ¬ HasStopped l') : GuardedMove s l s' l' where
  run h := .inl (hrun ▸ h)
  commits _ := .inr hl
  child := .inr (.inr hl)
  stops h := absurd (.inl h) hclose
  ends h := absurd (.inr h) hclose

theorem manageClosedConnection_run (factory : Option Bool) (s : ConnectorShared)
    (generation : ℕ) :
    (manageClosedConnection onClosed factory s generation).1.run = s.run := by
  unfold manageClosedConnection
  split
  · rfl
  · split <;> rfl

/-- What a move of any call can do to the child and the flag. -/
theorem connectorNext_guarded
    (hnext : connectorNext onClosed choice s l = some (s', l', events)) :
    GuardedMove s l s' l' := by
  have hreport : ∀ {generation : ℕ} {m : ConnectorLocal}, AboutToReport l → ¬ HasStopped m →
      GuardedMove s l (manageClosedConnection onClosed choice.factory s generation).1 m :=
    fun hl hm => .reporting hl (manageClosedConnection_run choice.factory s _) hm
  cases l with
  | sendChecking _ | loopBroken _ _ =>
    rw [connectorNext] at hnext
    split at hnext
    next hrun =>
      obtain ⟨rfl, rfl, -⟩ := hnext
      exact ⟨.inl, fun _ => .inl hrun, .inl rfl, by simp,
        by simp⟩
    next =>
      obtain ⟨rfl, rfl, -⟩ := hnext
      exact .plain rfl rfl id (by decide)
  | sendWriting framed =>
    obtain ⟨rfl, hwrite⟩ := Prod.mk.inj (Option.some.inj hnext)
    have hl' : (sendWrite choice.write s.io.generation framed).1 = l' :=
      congrArg Prod.fst hwrite
    refine .reporting trivial rfl ?_
    rw [← hl']
    unfold sendWrite
    split <;> rintro (h | h) <;> cases h
  | sendReporting _ _ _ | loopReporting _ _ =>
    obtain ⟨rfl, rfl, -⟩ := hnext
    refine hreport trivial ?_
    split <;> rintro (h | h) <;> cases h
  | listenStarting =>
    rw [connectorNext] at hnext
    split at hnext
    · obtain ⟨rfl, rfl, -⟩ := hnext
      exact .plain rfl rfl id (by decide)
    · obtain ⟨rfl, rfl, -⟩ := hnext
      exact ⟨fun _ => .inr rfl, fun h => h.elim, .inl rfl, by simp,
        by simp⟩
  | listenSpawning | loopChecking _ | loopTaking _ =>
    rw [connectorNext] at hnext
    split at hnext
    all_goals
      obtain ⟨rfl, rfl, -⟩ := hnext
      exact .plain rfl rfl id (by rintro (h | h) <;> cases h)
  | loopWaiting cutter =>
    rw [connectorNext] at hnext
    split at hnext
    · cases hnext
    · obtain ⟨rfl, rfl, -⟩ := hnext
      exact .plain rfl rfl id (by rintro (h | h) <;> cases h)
  | loopReading cutter generation =>
    obtain ⟨rfl, hread⟩ := Prod.mk.inj (Option.some.inj hnext)
    have hl' : (loopRead cutter generation choice.read).1 = l' := congrArg Prod.fst hread
    rw [← hl']
    unfold loopRead
    split <;> exact .plain rfl rfl id (by rintro (h | h) <;> cases h)
  | closing =>
    obtain ⟨rfl, rfl, -⟩ := hnext
    exact ⟨by simp, fun h => h.elim, .inl rfl, fun _ => rfl,
      by simp⟩
  | closingChild =>
    obtain ⟨rfl, rfl, -⟩ := hnext
    exact ⟨.inl, fun h => h.elim, .inr (.inl rfl), by simp,
      fun _ => ⟨rfl, rfl⟩⟩
  | sendEnded | listenEnded | loopEnded | closeEnded => cases hnext

/-! ## Every interleaving -/

/-- The flag `run`, which `close` clears. -/
def connectorRun : StopFlag ConnectorShared ConnectorLocal where
  flag s := s.run
  sets l := l = .listenStarting
  passed := AboutToReport
  stopped := HasStopped
  ending l := l = .closingChild
  ended l := l = .closeEnded

theorem GuardedMove.flag (h : GuardedMove s l s' l') : connectorRun.Move s l s' l' where
  flag := h.run
  passed := h.commits
  stopped hl' := by
    rcases hl' with hl' | hl'
    · exact .inl (h.stops hl')
    · exact .inr (.inl (h.ends hl').1)
  ended hl' := (h.ends hl').1

theorem connectorRun_fits (escape : UInt8) (onClosed : OnStreamClosed) :
    connectorRun.Fits (connectorThreads escape onClosed) where
  enter_stopped op := by cases op <;> rintro (h | h) <;> cases h
  enter_passed op := by cases op <;> exact id
  ended_stopped _ := .inr
  ended_passed l hl := by
    have hended : l = .closeEnded := hl
    rw [hended]
    exact id
  next _ _ _ _ _ _ hnext := (connectorNext_guarded hnext).flag

theorem ClosesAlone.alone (p : ConnectorPool) (l : ConnectorLocal) (h : ClosesAlone p l) :
    connectorRun.Alone p l where
  ending hl := by
    obtain rfl : l = .closingChild := hl
    exact h
  sets hl := by
    obtain rfl : l = .listenStarting := hl
    exact h

/-- Behind a `close` that has returned no child is held. -/
def ChildGone (p : ConnectorPool) : Prop :=
  ∀ c ∈ p.calls, c.2 = .closeEnded → p.shared.io.child = none

theorem ChildGone.enter {escape : UInt8} (p : ConnectorPool) (op : ConnectorOp) (h : ChildGone p) :
    ChildGone
      { p with calls := p.calls ++ [(op, (connectorThreads escape onClosed).enter op)] } := by
  refine forall_mem_concat.mpr ⟨h, fun hended => ?_⟩
  exact absurd (.inr hended) ((connectorRun_fits escape onClosed).enter_stopped op)

theorem ChildGone.move {p : ConnectorPool} (h : ChildGone p)
    (hcleared : connectorRun.Cleared p) {i : ℕ} {op : ConnectorOp} {log : List (ℕ × ConnectorEvent)}
    (hcall : p.calls[i]? = some (op, l)) (hguard : GuardedMove p.shared l s' l') :
    ChildGone ⟨s', p.calls.set i (op, l'), log⟩ := by
  intro c hc hended
  rcases List.mem_or_eq_of_mem_set hc with hc | rfl
  · rcases hguard.child with hsame | hgone | hl
    · exact hsame.trans (h c hc hended)
    · exact hgone
    · exact absurd hl (hcleared.ended c hc hended (op, l) (List.mem_of_getElem? hcall))
  · exact (hguard.ends hended).2

/-- **Closing is final**, when no call is committed to a report at the moment `close` takes the
child and `start_listen` is not called after it: whatever the other calls do, once a `close` has
returned no child is held.
SOURCE: connector.rs:130-217, 225-257, 274-280 -/
theorem close_is_final (escape : UInt8) (onClosed : OnStreamClosed) (hasChild : Bool)
    (turns : List (Turn ConnectorOp ConnectorChoice)) (p : ConnectorPool)
    (hrun : run (connectorThreads escape onClosed).step
      (Pool.start (ConnectorShared.new hasChild)) turns = some p)
    (halone : Along (connectorThreads escape onClosed).step (Threads.MovesIn ClosesAlone)
      (Pool.start (ConnectorShared.new hasChild)) turns)
    (i : ℕ) (hclosed : p.calls[i]? = some (.close, .closeEnded)) :
    p.shared.io.child = none := by
  have hgone : ChildGone p :=
    ((connectorRun_fits escape onClosed).run ClosesAlone.alone ChildGone.enter
      (fun _ _ _ _ _ _ _ _ hcleared h hcall hnext =>
        h.move hcleared hcall (connectorNext_guarded hnext))
      (fun _ hc => (by cases hc)) halone hrun).2
  exact hgone _ (List.mem_of_getElem? hclosed) rfl

/-- The connector is closed while the receive loop reads; the loop finds the end of the stream and
ends. -/
def closedConnectorTurns : List (Turn ConnectorOp ConnectorChoice) :=
  [.enter .startListen, .move 0 steadyChoice, .move 0 steadyChoice,
    .enter .receiveLoop, .move 1 steadyChoice, .move 1 steadyChoice, .move 1 steadyChoice,
    .enter .close, .move 2 steadyChoice, .move 2 steadyChoice,
    .move 1 steadyChoice, .move 1 steadyChoice]

/-- In `closedConnectorTurns` the loop has ended and no process is left. -/
theorem close_is_final_reading :
    ∃ p, run (connectorThreads 0xff .reconnect).step (Pool.start (ConnectorShared.new true))
        closedConnectorTurns = some p ∧
      p.calls[1]? = some (.receiveLoop, .loopEnded) ∧ p.shared.io.child = none := by
  refine exists_eq_some (Q := fun p => p.calls[1]? = some (.receiveLoop, .loopEnded) ∧
    p.calls[2]? = some (.close, .closeEnded)) (by decide +kernel) ?_
  rintro p hrun ⟨hloop, hclosed⟩
  exact ⟨hloop, close_is_final 0xff .reconnect true _ p hrun (by decide +kernel) 2 hclosed⟩

/-- A `send_packet` has found `run` to be true when `close` runs completely; then its write to the
dead process fails, and its report opens a new one. -/
def lateReportTurns : List (Turn ConnectorOp ConnectorChoice) :=
  [.enter .startListen, .move 0 steadyChoice, .move 0 steadyChoice, .enter .receiveLoop,
    .enter (.sendPacket [7]), .move 2 steadyChoice,
    .enter .close, .move 3 steadyChoice, .move 3 steadyChoice,
    .move 1 steadyChoice, .move 1 steadyChoice,
    .move 2 { steadyChoice with write := .writeFails 0 "broken pipe" },
    .move 2 steadyChoice, .move 2 steadyChoice]

/-- The run of `lateReportTurns` leaves a process behind `close`. -/
theorem child_left_after_close :
    ∃ p, run (connectorThreads 0xff .reconnect).step (Pool.start (ConnectorShared.new true))
        lateReportTurns = some p ∧
      p.calls = [(.startListen, .listenEnded true), (.receiveLoop, .loopEnded),
        (.sendPacket [7], .sendEnded (.error notRunning)), (.close, .closeEnded)] ∧
      p.shared.io.child = some 1 := ⟨_, rfl, rfl, rfl⟩

end Uartbus.Analysis
