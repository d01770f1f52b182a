import Mathlib.Order.Basic

/-!
# Programs that ask

A program either is done or asks something and goes on with the outcome.  `Safe` is the rule of
pre- and postconditions for such programs: with outcomes that fit the requests, every request is
allowed and the result is as promised.

What outcomes can tell may grow while a program runs.  `SafeFrom` takes this knowledge as a
parameter: a program that is safe from some knowledge on stays safe when more is known
(`SafeFrom.mono`), and so does what remains of it after an outcome (`SafeFrom.outcome`).

`exec` is the run of a program in an environment that answers each request, and `Ends` the rule
of total correctness for it: the program ends, and its result is as promised.  `Plays` is a run
on a given list of outcomes, one for each request.
-/

set_option autoImplicit false

namespace Uartbus.Lib

/-- A program with requests `ρ`, outcomes `ω` and results `α`.  `diverge` is a loop that asks
nothing and never ends. -/
inductive Program (ρ ω α : Type) where
  | done (a : α)
  | ask (r : ρ) (next : ω → Program ρ ω α)
  | diverge

namespace Program

variable {ρ ω α β κ : Type} {q : Program ρ ω α} {f : α → Program ρ ω β} {next : ω → Program ρ ω α}

/-- One program after the other. -/
def bind : Program ρ ω α → (α → Program ρ ω β) → Program ρ ω β
  | .done a, f => f a
  | .ask r next, f => .ask r fun w => (next w).bind f
  | .diverge, _ => .diverge

/-- The requests satisfy `R` and the result `Q`, whatever outcomes that satisfy `A` come. -/
def Safe (R : ρ → Prop) (A : ρ → ω → Prop) (Q : α → Prop) : Program ρ ω α → Prop
  | .done a => Q a
  | .ask r next => R r ∧ ∀ w, A r w → (next w).Safe R A Q
  | .diverge => True

theorem Safe.bind {R : ρ → Prop} {A : ρ → ω → Prop} {P : α → Prop} {Q : β → Prop}
    (hq : q.Safe R A P) (hf : ∀ a, P a → (f a).Safe R A Q) : (q.bind f).Safe R A Q := by
  induction q with
  | done a => exact hf a hq
  | ask r next ih => exact ⟨hq.1, fun w hw => ih w (hq.2 w hw)⟩
  | diverge => trivial

/-- Safety whatever more becomes known than `k`. -/
def SafeFrom [LE κ] (R : ρ → Prop) (A : κ → ρ → ω → Prop) (Q : κ → α → Prop) (k : κ)
    (q : Program ρ ω α) : Prop :=
  ∀ k', k ≤ k' → q.Safe R (A k') (Q k')

section Rules

variable [Preorder κ] {R : ρ → Prop} {A : κ → ρ → ω → Prop} {P : κ → α → Prop}
  {Q : κ → β → Prop} {k k' : κ}

theorem SafeFrom.mono (h : q.SafeFrom R A P k) (hk : k ≤ k') : q.SafeFrom R A P k' :=
  fun k'' hle => h k'' (hk.trans hle)

theorem SafeFrom.result {a : α} (h : (done a : Program ρ ω α).SafeFrom R A P k) : P k a :=
  h k le_rfl

theorem SafeFrom.request {r : ρ} (h : (ask r next).SafeFrom R A P k) : R r :=
  (h k le_rfl).1

/-- What remains after an outcome. -/
theorem SafeFrom.outcome {r : ρ} {w : ω} (hmono : ∀ k k', k ≤ k' → ∀ r w, A k r w → A k' r w)
    (h : (ask r next).SafeFrom R A P k) (hw : A k r w) : (next w).SafeFrom R A P k :=
  fun k' hk => (h k' hk).2 w (hmono k k' hk r w hw)

theorem safeFrom_done {a : α} (h : ∀ k', k ≤ k' → P k' a) :
    (done a : Program ρ ω α).SafeFrom R A P k :=
  h

theorem safeFrom_ask {r : ρ} (hr : R r)
    (h : ∀ k', k ≤ k' → ∀ w, A k' r w → (next w).SafeFrom R A P k') :
    (ask r next).SafeFrom R A P k :=
  fun k' hk => ⟨hr, fun w hw => h k' hk w hw k' le_rfl⟩

theorem SafeFrom.bind (hq : q.SafeFrom R A P k)
    (hf : ∀ k', k ≤ k' → ∀ a, P k' a → (f a).SafeFrom R A Q k') : (q.bind f).SafeFrom R A Q k :=
  fun k' hk => (hq k' hk).bind fun a ha => hf k' hk a ha k' le_rfl

end Rules

/-! ## On given outcomes -/

section Outcomes

variable {R : ρ → Prop} {A : ρ → ω → Prop}

/-- With the outcomes of the list, which satisfy `A`, the program gets to the result. -/
def Plays (A : ρ → ω → Prop) : Program ρ ω α → List ω → α → Prop
  | .done a, ws, a' => ws = [] ∧ a = a'
  | .ask _ _, [], _ => False
  | .ask r next, w :: ws, a => A r w ∧ (next w).Plays A ws a
  | .diverge, _, _ => False

theorem Safe.plays {Q : α → Prop} {ws : List ω} {a : α} (hsafe : q.Safe R A Q)
    (h : q.Plays A ws a) :
    Q a := by
  induction q generalizing ws with
  | done b =>
    obtain ⟨-, rfl⟩ := h
    exact hsafe
  | ask r next ih =>
    cases ws with
    | nil => exact h.elim
    | cons w ws => exact ih w (hsafe.2 w h.1) h.2
  | diverge => exact h.elim

/-- The program makes a request before anything else. -/
def Asks : Program ρ ω α → Prop
  | .ask _ _ => True
  | .done _ | .diverge => False

theorem Asks.bind (h : q.Asks) (f : α → Program ρ ω β) : (q.bind f).Asks := by
  cases q with
  | ask r next => trivial
  | done a | diverge => exact h.elim

/-- A program that asks needs an outcome. -/
theorem Asks.ne_nil {ws : List ω} {a : α} (hasks : q.Asks) (h : q.Plays A ws a) : ws ≠ [] := by
  rintro rfl
  cases q with
  | ask r next => exact h
  | done b | diverge => exact hasks

end Outcomes

/-! ## In an environment -/

section Environment

variable {σ : Type} (respond : ρ → σ → ω × σ)

/-- The result in an environment with states `σ`; none for a program that never ends. -/
def exec : Program ρ ω α → σ → Option (α × σ)
  | .done a, s => some (a, s)
  | .ask r next, s => (next (respond r s).1).exec (respond r s).2
  | .diverge, _ => none

/-- The program ends, with a result and a state that satisfy `Q`. -/
def Ends (Q : α → σ → Prop) : Program ρ ω α → σ → Prop
  | .done a, s => Q a s
  | .ask r next, s => (next (respond r s).1).Ends Q (respond r s).2
  | .diverge, _ => False

variable {respond} {P : α → σ → Prop} {Q : β → σ → Prop} {s : σ}

theorem ends_iff_exec : q.Ends respond P s ↔ ∃ a s', q.exec respond s = some (a, s') ∧ P a s' := by
  induction q generalizing s with
  | done a =>
    constructor
    · intro h
      exact ⟨a, s, rfl, h⟩
    · rintro ⟨a', s', heq, h⟩
      cases heq
      exact h
  | ask r next ih => exact ih (respond r s).1
  | diverge =>
    constructor
    · exact False.elim
    · rintro ⟨a, s', heq, -⟩
      cases heq

theorem Ends.mono {P' : α → σ → Prop} (h : q.Ends respond P s) (hP : ∀ a s', P a s' → P' a s') :
    q.Ends respond P' s := by
  obtain ⟨a, s', hexec, hq⟩ := ends_iff_exec.mp h
  exact ends_iff_exec.mpr ⟨a, s', hexec, hP a s' hq⟩

theorem Ends.bind (hq : q.Ends respond P s) (hf : ∀ a s', P a s' → (f a).Ends respond Q s') :
    (q.bind f).Ends respond Q s := by
  induction q generalizing s with
  | done a => exact hf a s hq
  | ask r next ih => exact ih (respond r s).1 hq
  | diverge => exact hq.elim

/-- What is done with the result of a program. -/
theorem Ends.map {f : α → β} (h : q.Ends respond (fun a s' => Q (f a) s') s) :
    (q.bind fun a => .done (f a)).Ends respond Q s :=
  h.bind fun _ _ hq => hq

theorem exec_bind (q : Program ρ ω α) (f : α → Program ρ ω β) (s : σ) :
    (q.bind f).exec respond s = (q.exec respond s).bind fun r => (f r.1).exec respond r.2 := by
  induction q generalizing s with
  | done a => rfl
  | ask r next ih => exact ih (respond r s).1 (respond r s).2
  | diverge => rfl

end Environment

end Program

end Uartbus.Lib
