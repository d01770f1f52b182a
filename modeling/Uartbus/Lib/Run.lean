import Mathlib.Data.List.Basic

/-!
# Runs of a transition function

A system is a function `step : σ → α → Option σ`: the state after an action, or
`none` when the action is not enabled.  `run` takes a list of actions one after
another, `Along` says that each of them satisfies a condition in the state it is
taken in, and `run_invariant` is the rule every safety result of this development
goes through: what one step preserves, a whole run preserves.  `Reaches` says that
some run leads from one state to another.
-/

set_option autoImplicit false

namespace Uartbus.Lib

variable {σ α : Type} (step : σ → α → Option σ) {P : σ → α → Prop} {acts : List α} {I : σ → Prop}

/-- The state after the actions of the list, `none` as soon as one is not enabled. -/
def run : σ → List α → Option σ
  | s, [] => some s
  | s, a :: acts => (step s a).bind fun s' => run s' acts

/-- Every action of the run satisfies `P` in the state it is taken in. -/
def Along (P : σ → α → Prop) : σ → List α → Prop
  | _, [] => True
  | s, a :: acts => P s a ∧ ∀ s', step s a = some s' → Along P s' acts

instance decidableAlong (P : σ → α → Prop) [∀ s a, Decidable (P s a)] :
    ∀ (s : σ) (acts : List α), Decidable (Along step P s acts)
  | _, [] => isTrue trivial
  | s, a :: acts =>
    match h : step s a with
    | none => decidable_of_iff (P s a) (by simp [Along, h])
    | some s' =>
      have := decidableAlong P s' acts
      decidable_of_iff (P s a ∧ Along step P s' acts) (by simp [Along, h])

@[simp] theorem run_nil (s : σ) : run step s [] = some s := rfl

theorem run_cons_eq_some (s s' : σ) (a : α) (acts : List α) :
    run step s (a :: acts) = some s' ↔
      ∃ m, step s a = some m ∧ run step m acts = some s' := by
  simp only [run, Option.bind_eq_some_iff]

/-- A run of one more action is the run before it followed by that action. -/
theorem run_concat_eq_some (s s' : σ) (a : α) (acts : List α) :
    run step s (acts ++ [a]) = some s' ↔
      ∃ m, run step s acts = some m ∧ step m a = some s' := by
  induction acts generalizing s with
  | nil => simp [run]
  | cons b acts ih =>
    simp only [List.cons_append, run_cons_eq_some, ih]
    constructor
    · rintro ⟨m, hb, m', hrun, ha⟩
      exact ⟨m', ⟨m, hb, hrun⟩, ha⟩
    · rintro ⟨m', ⟨m, hb, hrun⟩, ha⟩
      exact ⟨m, hb, m', hrun, ha⟩

variable {step}

/-- The condition along a run of one more action. -/
theorem along_concat {s m : σ} {a : α} (hrun : run step s acts = some m) :
    Along step P s (acts ++ [a]) ↔ Along step P s acts ∧ P m a := by
  induction acts generalizing s with
  | nil =>
    simp only [run_nil, Option.some.injEq] at hrun
    subst hrun
    simp [Along]
  | cons b acts ih =>
    obtain ⟨s₁, hb, hrest⟩ := (run_cons_eq_some step s m b acts).mp hrun
    simp only [List.cons_append, Along, hb, Option.some.injEq, forall_eq', ih hrest,
      and_assoc]

/-- A condition on the actions alone, added to one along the run. -/
theorem Along.and_of_mem {Q : α → Prop} {s : σ} (hP : Along step P s acts) (hQ : ∀ a ∈ acts, Q a) :
    Along step (fun s a => Q a ∧ P s a) s acts := by
  induction acts generalizing s with
  | nil => trivial
  | cons a acts ih =>
    refine ⟨⟨hQ a List.mem_cons_self, hP.1⟩, fun s' hs' => ?_⟩
    exact ih (hP.2 s' hs') fun b hb => hQ b (List.mem_cons_of_mem a hb)

/-- **The invariant rule.**  What every step satisfying `P` preserves holds at the end of
every run whose steps all satisfy `P`. -/
theorem run_invariant (hstep : ∀ s a s', I s → P s a → step s a = some s' → I s') {s s' : σ}
    (hs : I s) (hP : Along step P s acts) (hrun : run step s acts = some s') : I s' := by
  induction acts generalizing s with
  | nil =>
    simp only [run_nil, Option.some.injEq] at hrun
    exact hrun ▸ hs
  | cons a acts ih =>
    obtain ⟨m, ha, hrest⟩ := (run_cons_eq_some step s s' a acts).mp hrun
    exact ih (hstep s a m hs hP.1 ha) (hP.2 m ha) hrest

/-- A condition that always holds holds along every run. -/
theorem along_of_forall (h : ∀ s a, P s a) (s : σ) (acts : List α) : Along step P s acts := by
  induction acts generalizing s with
  | nil => trivial
  | cons a acts ih => exact ⟨h s a, fun s' _ => ih s'⟩

/-- The invariant rule for runs of any steps. -/
theorem run_invariant_all (hstep : ∀ s a s', I s → step s a = some s' → I s') {s s' : σ} (hs : I s)
    (hrun : run step s acts = some s') : I s' :=
  run_invariant (fun s a s' hI _ h => hstep s a s' hI h) hs
    (along_of_forall (P := fun _ _ => True) (fun _ _ => trivial) s acts) hrun

/-- An invariant of the steps whose actions are of a kind `Q`. -/
theorem run_invariant_mem {Q : α → Prop} (hstep : ∀ s a s', I s → Q a → step s a = some s' → I s')
    {s s' : σ} (hs : I s) (hQ : ∀ a ∈ acts, Q a) (hrun : run step s acts = some s') : I s' :=
  run_invariant (fun s a s' hI hP h => hstep s a s' hI hP.1 h) hs
    ((along_of_forall (P := fun _ _ => True) (fun _ _ => trivial) s acts).and_of_mem hQ) hrun

/-- A run of fixed actions is evaluated once: what the decidable `Q` finds of its result gives the
rest. -/
theorem exists_eq_some {β : Type} {result : Option β} {Q R : β → Prop} [DecidablePred Q]
    (heval : result.any (fun x => decide (Q x)) = true)
    (h : ∀ x, result = some x → Q x → R x) : ∃ x, result = some x ∧ R x := by
  cases result with
  | none => cases heval
  | some x => exact ⟨x, rfl, h x rfl (of_decide_eq_true heval)⟩

/-- The same with a second value, which the result gives. -/
theorem exists₂_eq_some {β γ : Type} {result : Option β} {Q : β → Prop} {R : β → γ → Prop}
    [DecidablePred Q] (heval : result.any (fun x => decide (Q x)) = true)
    (h : ∀ x, result = some x → Q x → ∃ y, R x y) : ∃ x y, result = some x ∧ R x y := by
  obtain ⟨x, hx, y, hy⟩ := exists_eq_some heval h
  exact ⟨x, y, hx, hy⟩

/-! ## Reachable states -/

theorem run_append_eq_some {s m s' : σ} {more : List α} (hrun : run step s acts = some m)
    (hmore : run step m more = some s') : run step s (acts ++ more) = some s' := by
  induction acts generalizing s with
  | nil =>
    simp only [run_nil, Option.some.injEq] at hrun
    rwa [hrun]
  | cons a acts ih =>
    obtain ⟨m', ha, hrest⟩ := (run_cons_eq_some step s m a acts).mp hrun
    exact (run_cons_eq_some step s s' a (acts ++ more)).mpr ⟨m', ha, ih hrest⟩

variable (step) in
/-- Some run leads from `s` to `s'`. -/
def Reaches (s s' : σ) : Prop := ∃ acts, run step s acts = some s'

theorem Reaches.refl (s : σ) : Reaches step s s := ⟨[], rfl⟩

theorem Reaches.single {s s' : σ} (a : α) (h : step s a = some s') : Reaches step s s' :=
  ⟨[a], (run_cons_eq_some step s s' a []).mpr ⟨s', h, rfl⟩⟩

theorem Reaches.trans {s m s' : σ} (h : Reaches step s m) (h' : Reaches step m s') :
    Reaches step s s' := by
  obtain ⟨acts, hrun⟩ := h
  obtain ⟨more, hmore⟩ := h'
  exact ⟨acts ++ more, run_append_eq_some hrun hmore⟩

/-- What every step preserves holds of every state that is reached. -/
theorem Reaches.invariant (hstep : ∀ s a s', I s → step s a = some s' → I s') {s s' : σ}
    (h : Reaches step s s') (hs : I s) : I s' := by
  obtain ⟨acts, hrun⟩ := h
  exact run_invariant_all hstep hs hrun

end Uartbus.Lib
