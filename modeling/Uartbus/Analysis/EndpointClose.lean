import Uartbus.Analysis.FanOut

/-!
# Closing the endpoint

A session leaves the list of the endpoint only into the hands of a call that closes it next
(`CloseFits`).  So once a `close` has returned, every session that was in the list when it was
emptied is closed or about to be.  What `close` cannot reach is a session that is inserted after the
list was emptied: `new_session` has looked at the flag before, and does not look again.
-/

set_option autoImplicit false

namespace Uartbus.Analysis

open Lib Model Interface

variable {log : List (ℕ × EndpointEvent)}

/-- The sessions that an event takes out of the list. -/
def takesOut : EndpointEvent → List ℕ
  | .removed id => [id]
  | .emptied sessions => sessions
  | _ => []

def empties : EndpointEvent → Bool
  | .emptied _ => true
  | _ => false

/-- A `close` has emptied the list. -/
def EmptiedIn (log : List (ℕ × EndpointEvent)) : Prop := ∃ e ∈ log, empties e.2 = true

instance (log : List (ℕ × EndpointEvent)) : Decidable (EmptiedIn log) :=
  inferInstanceAs (Decidable (∃ e ∈ log, empties e.2 = true))

/-- No session is inserted after a `close` has emptied the list. -/
def InsertsBeforeEmptying (_ : EndpointShared) (log : List (ℕ × EndpointEvent))
    (l : EndpointLocal) : Prop :=
  l = .inserting → ¬ EmptiedIn log

instance (s : EndpointShared) (log : List (ℕ × EndpointEvent)) (l : EndpointLocal) :
    Decidable (InsertsBeforeEmptying s log l) :=
  inferInstanceAs (Decidable (l = .inserting → ¬ EmptiedIn log))

/-- The session exists and is closed. -/
def SessionClosed (s : EndpointShared) (id : ℕ) : Prop :=
  ∃ x, s.created[id]? = some x ∧ x.closed = true

section Moves

variable {s s' : EndpointShared} {l l' : EndpointLocal} {events : List EndpointEvent}

theorem SessionClosed.withSession {id id' : ℕ} {x x' : SessionState} (h : SessionClosed s id)
    (hx : s.created[id']? = some x) (hclosed : x.closed = true → x'.closed = true) :
    SessionClosed (s.withSession id' x') id := by
  obtain ⟨y, hy, hyclosed⟩ := h
  unfold SessionClosed EndpointShared.withSession
  by_cases hid : id' = id
  · subst hid
    obtain rfl := Option.some.inj (hx.symm.trans hy)
    exact ⟨x', List.getElem?_set_self (List.getElem?_eq_some_iff.mp hx).1, hclosed hyclosed⟩
  · exact ⟨y, by rw [List.getElem?_set_ne hid, hy], hyclosed⟩

/-- A closed session stays closed. -/
theorem SessionClosed.effect {id : ℕ} (h : SessionClosed s id)
    (heffect : EndpointEffect s l s' events) : SessionClosed s' id := by
  cases heffect with
  | silent | plain | copied | loaded | removed | marked | emptied => exact h
  | put packet hx =>
    refine h.withSession hx fun hclosed => ?_
    rw [SessionState.put, if_pos hclosed]
    exact hclosed
  | took _ hx _ | endOfReceive _ hx _ _ => exact h.withSession hx fun hclosed => hclosed
  | attributesSet hx _ hclosed => exact h.withSession hx fun hx' => hclosed.trans hx'
  | created =>
    obtain ⟨x, hx, hclosed⟩ := h
    refine ⟨x, ?_, hclosed⟩
    rw [EndpointShared.insertSession,
      List.getElem?_append_left (List.getElem?_eq_some_iff.mp hx).1, hx]
  | sessionClosed hx => exact h.withSession hx fun _ => rfl

/-- Every session is in the list or has been taken out of it, and the list stays empty once it has
been emptied. -/
structure CloseKept (s : EndpointShared) (log : List (ℕ × EndpointEvent)) : Prop where
  accounted : ∀ id, id < s.created.length → id ∈ s.sessions ∨ ∃ e ∈ log, id ∈ takesOut e.2
  emptied : EmptiedIn log → s.sessions = []

theorem emptiedIn_append {i : ℕ} (h : EmptiedIn (log ++ ownedBy i events)) :
    EmptiedIn log ∨ ∃ e ∈ events, empties e = true := by
  obtain ⟨e, hmem, he⟩ := h
  rcases List.mem_append.mp hmem with hmem | hmem
  · exact .inl ⟨e, hmem, he⟩
  · exact .inr ⟨e.2, (mem_ownedBy.mp hmem).2, he⟩

/-- Every effect of a move keeps what holds of `close`. -/
theorem CloseKept.effect {i : ℕ} (h : CloseKept s log) (hinsert : InsertsBeforeEmptying s log l)
    (heffect : EndpointEffect s l s' events) : CloseKept s' (log ++ ownedBy i events) := by
  have hout : ∀ {id}, (∃ e ∈ log, id ∈ takesOut e.2) →
      ∃ e ∈ log ++ ownedBy i events, id ∈ takesOut e.2 := fun ⟨e, he, hid⟩ =>
    ⟨e, List.mem_append_left _ he, hid⟩
  -- a move that leaves the list and its length as they are
  have hsame : s'.created.length = s.created.length → s'.sessions = s.sessions →
      (∀ e ∈ events, empties e = false) → CloseKept s' (log ++ ownedBy i events) := by
    intro hlength hsessions hnone
    refine ⟨fun id hid => ?_, fun hemptied => ?_⟩
    · rw [hlength] at hid
      rw [hsessions]
      exact (h.accounted id hid).imp_right hout
    · rw [hsessions]
      rcases emptiedIn_append hemptied with hemptied | ⟨e, hmem, he⟩
      · exact h.emptied hemptied
      · rw [hnone e hmem] at he
        cases he
  have hone : ∀ {e : EndpointEvent}, empties e = false → ∀ e' ∈ [e], empties e' = false :=
    fun he => List.forall_mem_singleton.mpr he
  cases heffect with
  | silent => exact hsame rfl rfl fun _ hmem => by cases hmem
  | plain he => exact hsame rfl rfl (hone (by cases he <;> rfl))
  | copied | loaded | marked => exact hsame rfl rfl (hone rfl)
  | put | took | endOfReceive | attributesSet | sessionClosed =>
    exact hsame List.length_set rfl (hone rfl)
  | created hl =>
    refine ⟨fun id hid => ?_, fun hemptied => ?_⟩
    · rw [EndpointShared.insertSession, List.length_append, List.length_singleton] at hid
      by_cases hnew : id = s.created.length
      · exact .inl (List.mem_append_right _ (List.mem_singleton.mpr hnew))
      · exact (h.accounted id (by omega)).imp (List.mem_append_left _) hout
    · rcases emptiedIn_append hemptied with hemptied | ⟨e, hmem, he⟩
      · exact absurd hemptied (hinsert hl)
      · rw [List.mem_singleton.mp hmem] at he
        cases he
  | @removed out hl =>
    refine ⟨fun id hid => ?_, fun hemptied => ?_⟩
    · by_cases hid' : id = out
      · exact .inr ⟨(i, .removed out), List.mem_append_right _ (List.mem_singleton_self _),
          List.mem_singleton.mpr hid'⟩
      · exact (h.accounted id hid).imp
          (fun hmem => List.mem_filter.mpr ⟨hmem, decide_eq_true hid'⟩) hout
    · rcases emptiedIn_append hemptied with hemptied | ⟨e, hmem, he⟩
      · show s.sessions.filter _ = []
        rw [h.emptied hemptied]
        rfl
      · rw [List.mem_singleton.mp hmem] at he
        cases he
  | emptied hl =>
    refine ⟨fun id hid => ?_, fun _ => rfl⟩
    rcases h.accounted id hid with hmem | hold
    · exact .inr ⟨(i, .emptied s.sessions), List.mem_append_right _ (List.mem_singleton_self _),
        hmem⟩
    · exact .inr (hout hold)

end Moves

/-! ## The calls -/

/-- The calls that take sessions out of the list. -/
def Closer (op : EndpointOp) : Prop := op = .close ∨ ∃ id, op = .removeSession id

/-- The local states of these calls. -/
def closerPath : EndpointLocal → Bool
  | .removing _ | .marking | .closingConnector | .emptying | .closing _ => true
  | _ => false

/-- What a call has taken out of the list is closed, or the call closes it next; a `close` that has
returned has emptied the list. -/
structure CloseFits (s : EndpointShared) (op : EndpointOp) (l : EndpointLocal)
    (own : List EndpointEvent) : Prop where
  out : ∀ e ∈ own, ∀ id ∈ takesOut e,
    SessionClosed s id ∨ ∃ rest, l = .closing rest ∧ id ∈ rest
  stage : op = .close → l = .marking ∨ l = .closingConnector ∨ l = .emptying ∨
    ((∃ rest, l = .closing rest) ∨ l = .ended) ∧ ∃ sessions, .emptied sessions ∈ own
  closer : closerPath l = true → Closer op

section Calls

variable {sent : Bool} {s s' : EndpointShared} {op : EndpointOp} {l l' : EndpointLocal}
  {own events : List EndpointEvent}

theorem closerPath_of_path (h : EndpointPath s l l') (hpath : closerPath l' = true) :
    closerPath l = true := by
  cases h with
  | removed | marked | closedConnector | emptied | closedOne => rfl
  | ended | copied | put | sent | copiedSent | byLoopback | toEcho | byEcho | skipped | putSent
  | checked | opened => cases hpath

/-- One move of a call goes on with the events of its `close`. -/
theorem CloseFits.step (h : CloseFits s op l own)
    (hnext : endpointNext sent s l = some (s', l', events)) :
    CloseFits s' op l' (own ++ events) := by
  obtain ⟨heffect, hpath⟩ := endpoint_move hnext
  refine ⟨fun e he id hid => ?_, fun hop => ?_, fun h' => h.closer (closerPath_of_path hpath h')⟩
  · rcases List.mem_append.mp he with he | he
    · -- taken out before: the next session of the list is closed now
      rcases h.out e he id hid with hclosed | ⟨rest, rfl, hmem⟩
      · exact .inl (hclosed.effect heffect)
      · cases rest with
        | nil => cases hmem
        | cons next rest =>
          obtain ⟨x, hx, ⟨rfl, rfl, -⟩⟩ := Option.map_eq_some_iff.mp hnext
          rcases List.mem_cons.mp hmem with rfl | hmem
          · exact .inl ⟨x.close,
              List.getElem?_set_self (List.getElem?_eq_some_iff.mp hx).1, rfl⟩
          · exact .inr ⟨rest, rfl, hmem⟩
    · -- taken out by this move
      cases heffect with
      | removed hl =>
        subst hl
        obtain ⟨x, -, ⟨-, rfl, -⟩⟩ := Option.map_eq_some_iff.mp hnext
        rw [List.mem_singleton.mp he] at hid
        exact .inr ⟨_, rfl, hid⟩
      | emptied hl =>
        subst hl
        obtain ⟨-, rfl, -⟩ := hnext
        rw [List.mem_singleton.mp he] at hid
        exact .inr ⟨_, rfl, hid⟩
      | plain hplain =>
        rw [List.mem_singleton.mp he] at hid
        cases hplain <;> cases hid
      | silent => cases he
      | copied | loaded | put | took | endOfReceive | attributesSet | created | marked
      | sessionClosed =>
        rw [List.mem_singleton.mp he] at hid
        cases hid
  · rcases h.stage hop with rfl | rfl | rfl | ⟨⟨rest, rfl⟩ | rfl, sessions, hemptied⟩
    · obtain ⟨-, rfl, -⟩ := hnext
      exact .inr (.inl rfl)
    · obtain ⟨-, rfl, -⟩ := hnext
      exact .inr (.inr (.inl rfl))
    · obtain ⟨-, rfl, rfl⟩ := hnext
      exact .inr (.inr (.inr ⟨.inl ⟨_, rfl⟩, s.sessions,
        List.mem_append_right _ (List.mem_singleton_self _)⟩))
    · refine .inr (.inr (.inr ⟨?_, sessions, List.mem_append_left _ hemptied⟩))
      cases rest with
      | nil =>
        obtain ⟨-, rfl, -⟩ := hnext
        exact .inr rfl
      | cons next rest =>
        obtain ⟨x, -, ⟨-, rfl, -⟩⟩ := Option.map_eq_some_iff.mp hnext
        exact .inl ⟨rest, rfl⟩
    · cases hnext

end Calls

theorem endpointThreads_closeKept :
    endpointThreads.Kept InsertsBeforeEmptying CloseKept CloseFits where
  enter := by
    intro s log op _
    refine ⟨by simp, ?_, fun hpath => ?_⟩
    · rintro rfl
      exact .inl rfl
    · cases op with
      | removeSession id => exact .inr ⟨id, rfl⟩
      | close => exact .inl rfl
      | packetHook | newSession | sendPacket | takeCall | closeSession | setAttribute => cases hpath
  own := by
    intro s log i op l sent s' l' events hI hA hP hnext
    exact ⟨hI.effect hP (endpoint_move hnext).1, hA.step hnext⟩
  other := by
    intro s log i op l sent s' l' events op' m own _ _ hA _ hnext
    refine ⟨fun e he id hid => ?_, hA.stage, hA.closer⟩
    exact (hA.out e he id hid).imp_left fun h => h.effect (endpoint_move hnext).1

/-- **Closing reaches everyone.**  In every interleaving in which no session is inserted after a
`close` has emptied the list: once a `close` has returned, every session is closed, or about to be
closed by another call that has taken it out of the list.  Without such a call all are closed, and
a `take` on them returns what is left in the queue and then the error.
SOURCE: rpc/endpoint.rs:159-182, 216-224 -/
theorem close_reaches_everyone (echo loopback : Bool) (turns : List (Turn EndpointOp Bool))
    (p : Pool EndpointOp EndpointShared EndpointLocal EndpointEvent)
    (hrun : run endpointThreads.step (Pool.start (EndpointShared.new echo loopback)) turns = some p)
    (hinserts : Along endpointThreads.step (Threads.MovesWhere InsertsBeforeEmptying)
      (Pool.start (EndpointShared.new echo loopback)) turns)
    (i : ℕ) (hclose : p.calls[i]? = some (.close, .ended)) :
    (∀ id x, p.shared.created[id]? = some x → x.closed = true ∨
      ∃ j op rest, j ≠ i ∧ Closer op ∧ p.calls[j]? = some (op, .closing rest) ∧ id ∈ rest) ∧
    ((∀ j op l, p.calls[j]? = some (op, l) → Closer op → j = i) →
      ∀ id x, p.shared.created[id]? = some x → x.closed = true ∧
        ∀ j op sent, p.calls[j]? = some (op, .taking id) →
          ∃ p', endpointThreads.step p (.move j sent) = some p' ∧
            p'.log = p.log ++ [(j, lastTaken id x.packets)]) := by
  have hstart : CloseKept (EndpointShared.new echo loopback) [] :=
    ⟨fun _ h => (by cases h), fun _ => rfl⟩
  obtain ⟨hkept, hcalls, howner⟩ := endpointThreads_closeKept.run hstart hinserts hrun
  have hreached : ∀ id x, p.shared.created[id]? = some x → x.closed = true ∨
      ∃ j op rest, j ≠ i ∧ Closer op ∧ p.calls[j]? = some (op, .closing rest) ∧ id ∈ rest := by
    intro id x hx
    have hemptied : EmptiedIn p.log := by
      rcases (hcalls i _ _ hclose).stage rfl with h | h | h | ⟨-, sessions, hmem⟩
      · cases h
      · cases h
      · cases h
      · obtain ⟨e, he, heq⟩ := List.mem_filterMap.mp hmem
        split at heq
        next => exact ⟨e, he, by rw [Option.some.inj heq]; rfl⟩
        next => cases heq
    rcases hkept.accounted id (List.getElem?_eq_some_iff.mp hx).1 with hmem | ⟨e, he, hout⟩
    · rw [hkept.emptied hemptied] at hmem
      cases hmem
    · -- the call that took the session out
      obtain ⟨⟨op, l⟩, hj⟩ : ∃ call, p.calls[e.1]? = some call :=
        ⟨_, List.getElem?_eq_getElem (howner e he)⟩
      have hfits := hcalls e.1 op l hj
      have hown : e.2 ∈ callEvents e.1 p.log := List.mem_filterMap.mpr ⟨e, he, if_pos rfl⟩
      rcases hfits.out e.2 hown id hout with ⟨y, hy, hclosed⟩ | ⟨rest, rfl, hmem⟩
      · obtain rfl := Option.some.inj (hx.symm.trans hy)
        exact .inl hclosed
      · refine .inr ⟨e.1, op, rest, ?_, hfits.closer rfl, hj, hmem⟩
        intro heq
        rw [heq, hclose] at hj
        cases hj
  refine ⟨hreached, fun honly id x hx => ?_⟩
  have hclosed : x.closed = true := by
    rcases hreached id x hx with hclosed | ⟨j, op, rest, hne, hop, hj, -⟩
    · exact hclosed
    · exact absurd (honly j op _ hj hop) hne
  exact ⟨hclosed, fun j op sent hj => take_closed hj hx hclosed sent⟩

/-- A receiver waits at its session when the endpoint is closed. -/
def closeTurns : List (Turn EndpointOp Bool) :=
  [.enter .newSession, .move 0 true, .move 0 true, .enter (.takeCall 0), .enter .close,
    .move 2 true, .move 2 true, .move 2 true, .move 2 true, .move 2 true]

/-- A session that waits when the endpoint is closed takes the end of the stream next. -/
theorem close_reaches_everyone_waiting :
    ∃ p p', run endpointThreads.step (Pool.start (EndpointShared.new false true)) closeTurns =
      some p ∧
      endpointThreads.step p (.move 1 true) = some p' ∧
      p'.log = p.log ++ [(1, .endOfReceive 0)] := by
  obtain ⟨p, hrun, hcalls, hcreated⟩ : ∃ p, run endpointThreads.step
      (Pool.start (EndpointShared.new false true)) closeTurns = some p ∧
        p.calls = [(.newSession, .opened 0), (.takeCall 0, .taking 0), (.close, .ended)] ∧
        p.shared.created = [⟨[], true, false, true⟩] := ⟨_, rfl, rfl, rfl⟩
  obtain ⟨-, hall⟩ := close_reaches_everyone false true closeTurns p hrun (by decide) 2
    (by rw [hcalls]; rfl)
  have honly : ∀ j op l, p.calls[j]? = some (op, l) → Closer op → j = 2 := by
    rw [hcalls]
    rintro (_ | _ | _ | j) op l hj (rfl | ⟨id, rfl⟩)
    all_goals first | rfl | cases hj
  obtain ⟨-, htake⟩ := hall honly 0 _ (by rw [hcreated]; rfl)
  obtain ⟨p', hstep, hlog⟩ := htake 1 (.takeCall 0) true (by rw [hcalls]; rfl)
  exact ⟨p, p', hrun, hstep, hlog⟩

/-- A `close` runs between the two steps of a `new_session`. -/
def lateTurns : List (Turn EndpointOp Bool) :=
  [.enter .newSession, .move 0 true, .enter .close, .move 1 true, .move 1 true, .move 1 true,
    .move 1 true, .move 0 true, .enter (.takeCall 0)]

/-- The session that is inserted late stays open after `close` has returned, and the call that waits
at it is never woken: no call can move. -/
theorem close_misses_late_session :
    ∃ p, run endpointThreads.step (Pool.start (EndpointShared.new false true)) lateTurns = some p ∧
      p.calls = [(.newSession, .opened 0), (.close, .ended), (.takeCall 0, .taking 0)] ∧
      p.shared.created = [⟨[], false, false, true⟩] ∧
      ∀ j sent, endpointThreads.step p (.move j sent) = none := by
  refine ⟨_, rfl, rfl, rfl, fun j sent => ?_⟩
  match j with
  | 0 | 1 | 2 | _ + 3 => rfl

end Uartbus.Analysis
