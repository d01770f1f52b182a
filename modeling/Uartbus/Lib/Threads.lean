import Mathlib.Data.List.Basic
import Uartbus.Lib.Run

/-!
# Threads over a shared state

Calls run at the same time over a shared state.  Each is in a local state, and one move of it is
one atomic step: a critical section, an atomic load or store, or something that only the call
itself sees.  A run gives the turns in any order, so that statements about every run are
statements about every interleaving.

A move may leave events; the log holds them in their order with the number of the call.

`Kept` is the rule the results about threads go through.  An invariant of the shared state and
the log, and an assertion about each call, its local state and its own events: a move keeps the
invariant and its own call's assertion, and does not break the assertion of another call.
-/

set_option autoImplicit false

namespace Uartbus.Lib

/-- Calls `ι` with choices `κ`, over a shared state `σ` with local states `τ` and events `ε`. -/
structure Threads (ι κ σ τ ε : Type) where
  /-- The local state a call begins in. -/
  enter : ι → τ
  /-- One move of a call; none when it has ended or has to wait. -/
  next : κ → σ → τ → Option (σ × τ × List ε)

/-- The state of everything: the calls in the order they began, each with its local state. -/
structure Pool (ι σ τ ε : Type) where
  shared : σ
  calls : List (ι × τ)
  log : List (ℕ × ε)

/-- Who is next: a new call begins, or one that has begun moves. -/
inductive Turn (ι κ : Type) where
  | enter (op : ι)
  | move (i : ℕ) (choice : κ)

variable {ι κ σ τ ε : Type} {p p' : Pool ι σ τ ε} {I : σ → List (ℕ × ε) → Prop}
  {A : σ → ι → τ → List ε → Prop} {P : σ → List (ℕ × ε) → τ → Prop} {turns : List (Turn ι κ)}
  {turn : Turn ι κ} {events : List ε} {i : ℕ} {s : σ}

/-- Nothing has been called yet. -/
def Pool.start (s : σ) : Pool ι σ τ ε := ⟨s, [], []⟩

/-- The events of one call. -/
def callEvents (i : ℕ) (log : List (ℕ × ε)) : List ε :=
  log.filterMap fun e => if e.1 = i then some e.2 else none

/-- The events of a move, with the number of its call. -/
def ownedBy (i : ℕ) (events : List ε) : List (ℕ × ε) := events.map fun e => (i, e)

theorem callEvents_append (i : ℕ) (log more : List (ℕ × ε)) :
    callEvents i (log ++ more) = callEvents i log ++ callEvents i more :=
  List.filterMap_append

theorem callEvents_ownedBy (i : ℕ) (events : List ε) :
    callEvents i (ownedBy i events) = events := by
  induction events with
  | nil => rfl
  | cons e events ih =>
    unfold callEvents ownedBy at ih ⊢
    rw [List.map_cons, List.filterMap_cons, if_pos rfl, ih]

theorem callEvents_ownedBy_ne {j : ℕ} (h : i ≠ j) (events : List ε) :
    callEvents j (ownedBy i events) = [] := by
  unfold callEvents ownedBy
  rw [List.filterMap_eq_nil_iff]
  intro e he
  obtain ⟨e', -, rfl⟩ := List.mem_map.mp he
  exact if_neg h

theorem mem_ownedBy {e : ℕ × ε} : e ∈ ownedBy i events ↔ e.1 = i ∧ e.2 ∈ events := by
  unfold ownedBy
  rw [List.mem_map]
  constructor
  · rintro ⟨e', he', rfl⟩
    exact ⟨rfl, he'⟩
  · rintro ⟨rfl, he⟩
    exact ⟨e.2, he, rfl⟩

namespace Threads

variable (T : Threads ι κ σ τ ε)

/-- One turn. -/
def step (p : Pool ι σ τ ε) : Turn ι κ → Option (Pool ι σ τ ε)
  | .enter op => some { p with calls := p.calls ++ [(op, T.enter op)] }
  | .move i choice =>
    match p.calls[i]? with
    | none => none
    | some (op, l) =>
      (T.next choice p.shared l).map fun m =>
        { shared := m.1
          calls := p.calls.set i (op, m.2.1)
          log := p.log ++ ownedBy i m.2.2 }

variable {T}

/-- What a turn can do. -/
theorem step_cases (h : T.step p turn = some p') :
    (∃ op, turn = .enter op ∧ p' = { p with calls := p.calls ++ [(op, T.enter op)] }) ∨
      ∃ i choice op l s' l' events, turn = .move i choice ∧ p.calls[i]? = some (op, l) ∧
        T.next choice p.shared l = some (s', l', events) ∧
        p' = ⟨s', p.calls.set i (op, l'), p.log ++ ownedBy i events⟩ := by
  cases turn with
  | enter op => exact .inl ⟨op, rfl, (Option.some.inj h).symm⟩
  | move i choice =>
    rw [step] at h
    cases hcall : p.calls[i]? with
    | none => simp [hcall] at h
    | some call =>
      simp only [hcall, Option.map_eq_some_iff] at h
      obtain ⟨⟨s', l', events⟩, hnext, rfl⟩ := h
      exact .inr ⟨i, choice, call.1, call.2, s', l', events, rfl, hcall, hnext, rfl⟩

/-- A move of a call that need not wait. -/
theorem step_move {op : ι} {l l' : τ} {choice : κ} {s' : σ} (hcall : p.calls[i]? = some (op, l))
    (hnext : T.next choice p.shared l = some (s', l', events)) :
    T.step p (.move i choice) =
      some ⟨s', p.calls.set i (op, l'), p.log ++ ownedBy i events⟩ := by
  simp only [step, hcall, hnext, Option.map_some]

/-- The moves of a run are made where `P` holds of the pool and the local state. -/
def MovesIn (P : Pool ι σ τ ε → τ → Prop) (p : Pool ι σ τ ε) (turn : Turn ι κ) : Prop :=
  ∀ i choice op l, turn = .move i choice → p.calls[i]? = some (op, l) → P p l

instance decidableMovesIn (P : Pool ι σ τ ε → τ → Prop) [∀ p l, Decidable (P p l)]
    (p : Pool ι σ τ ε) : ∀ turn : Turn ι κ, Decidable (MovesIn P p turn)
  | .enter _ => isTrue fun _ _ _ _ h => by cases h
  | .move i choice =>
    match h : p.calls[i]? with
    | none => isTrue fun j _ _ _ hturn hj => by cases hturn; rw [h] at hj; cases hj
    | some (op, l) =>
      decidable_of_iff (P p l)
        ⟨fun hP j _ _ _ hturn hj => by cases hturn; rw [h] at hj; cases hj; exact hP,
          fun hall => hall i choice op l rfl h⟩

/-- The moves of a run are made where `P` holds of the shared state, the log and the local
state. -/
def MovesWhere (P : σ → List (ℕ × ε) → τ → Prop) (p : Pool ι σ τ ε) (turn : Turn ι κ) : Prop :=
  ∀ i choice op l, turn = .move i choice → p.calls[i]? = some (op, l) → P p.shared p.log l

instance decidableMovesWhere (P : σ → List (ℕ × ε) → τ → Prop) [∀ s log l, Decidable (P s log l)]
    (p : Pool ι σ τ ε) (turn : Turn ι κ) : Decidable (MovesWhere P p turn) :=
  decidableMovesIn (fun q l => P q.shared q.log l) p turn

variable (T) in
/-- The invariant `I` and the assertion `A` are kept by the moves that are made where `P` holds. -/
structure Kept (P : σ → List (ℕ × ε) → τ → Prop) (I : σ → List (ℕ × ε) → Prop)
    (A : σ → ι → τ → List ε → Prop) : Prop where
  enter : ∀ s log op, I s log → A s op (T.enter op) []
  own : ∀ s log i op l choice s' l' events, I s log → A s op l (callEvents i log) → P s log l →
    T.next choice s l = some (s', l', events) →
      I s' (log ++ ownedBy i events) ∧ A s' op l' (callEvents i log ++ events)
  other : ∀ s log i op l choice s' l' events op' m own, I s log → A s op l (callEvents i log) →
    A s op' m own → P s log l → T.next choice s l = some (s', l', events) → A s' op' m own

/-- The invariant, the assertion of every call, and that no event is of a call to come. -/
def Holds (I : σ → List (ℕ × ε) → Prop) (A : σ → ι → τ → List ε → Prop) (p : Pool ι σ τ ε) : Prop :=
  I p.shared p.log ∧
    (∀ i op l, p.calls[i]? = some (op, l) → A p.shared op l (callEvents i p.log)) ∧
    ∀ e ∈ p.log, e.1 < p.calls.length

/-- What entering and moving keep, every turn keeps. -/
theorem Kept.step (hkept : T.Kept P I A) (hp : Holds I A p) (hP : MovesWhere P p turn)
    (h : T.step p turn = some p') : Holds I A p' := by
  obtain ⟨hI, hA, hlog⟩ := hp
  rcases step_cases h with ⟨op, rfl, rfl⟩ |
    ⟨i, choice, op, l, s', l', events, rfl, hcall, hnext, rfl⟩
  · refine ⟨hI, fun j op' m hj => ?_, fun e he => ?_⟩
    · by_cases hlt : j < p.calls.length
      · rw [List.getElem?_append_left hlt] at hj
        exact hA j op' m hj
      · rw [List.getElem?_append_right (Nat.not_lt.mp hlt),
          List.getElem?_singleton] at hj
        have hnew : callEvents j p.log = [] := by
          unfold callEvents
          rw [List.filterMap_eq_nil_iff]
          intro e he
          have := hlog e he
          exact if_neg (by omega)
        split at hj
        · obtain ⟨rfl, rfl⟩ := Prod.mk.inj (Option.some.inj hj)
          rw [hnew]
          exact hkept.enter p.shared p.log op hI
        · cases hj
    · rw [List.length_append]
      exact Nat.lt_add_right _ (hlog e he)
  · have hown := hA i op l hcall
    have hwhere := hP i choice op l rfl hcall
    obtain ⟨hI', hA'⟩ :=
      hkept.own p.shared p.log i op l choice s' l' events hI hown hwhere hnext
    have hi : i < p.calls.length := (List.getElem?_eq_some_iff.mp hcall).1
    refine ⟨hI', fun j op' m hj => ?_, fun e he => ?_⟩
    · rw [callEvents_append]
      by_cases hij : i = j
      · subst hij
        rw [List.getElem?_set_self hi] at hj
        obtain ⟨rfl, rfl⟩ := Prod.mk.inj (Option.some.inj hj)
        rw [callEvents_ownedBy]
        exact hA'
      · rw [List.getElem?_set_ne hij] at hj
        rw [callEvents_ownedBy_ne hij, List.append_nil]
        exact hkept.other p.shared p.log i op l choice s' l' events op' m _ hI hown (hA j op' m hj)
          hwhere hnext
    · rw [List.length_set]
      rcases List.mem_append.mp he with he | he
      · exact hlog e he
      · rw [(mem_ownedBy.mp he).1]
        exact hi

/-- Something else than a call changes the shared state. -/
theorem Holds.withShared (hp : Holds I A p) (hI : I s p.log)
    (hA : ∀ op l own, A p.shared op l own → A s op l own) : Holds I A { p with shared := s } :=
  ⟨hI, fun i op l hcall => hA op l _ (hp.2.1 i op l hcall), hp.2.2⟩

/-- **The rule for runs.** -/
theorem Kept.run (hkept : T.Kept P I A) (hs : I s [])
    (hP : Along T.step (MovesWhere P) (Pool.start s) turns)
    (hrun : Lib.run T.step (Pool.start s) turns = some p) : Holds I A p := by
  refine run_invariant (fun q turn q' hq hturn h => hkept.step hq hturn h) ?_ hP hrun
  refine ⟨hs, fun i op l h => ?_, fun e he => ?_⟩
  · simp [Pool.start] at h
  · simp [Pool.start] at he

/-- The rule for runs of any moves. -/
theorem Kept.run_all (hkept : T.Kept (fun _ _ _ => True) I A) (hs : I s [])
    (hrun : Lib.run T.step (Pool.start s) turns = some p) : Holds I A p :=
  hkept.run hs (along_of_forall (fun _ _ _ _ _ _ _ _ => trivial) _ _) hrun

end Threads

end Uartbus.Lib
