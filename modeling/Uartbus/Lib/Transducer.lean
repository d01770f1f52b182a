import Mathlib.Data.List.Basic

/-!
# Transducers

A machine that reads one symbol after another, keeps a state and gives some output for each
symbol.  What it gives for a list of symbols does not depend on how the list is cut into
pieces (`transduce_flatten`), and a machine that follows another one symbol by symbol follows
it over lists (`transduce_follows`).
-/

set_option autoImplicit false

namespace Uartbus.Lib

variable {σ τ α β : Type}

/-- The state after the symbols of the list, and the output for all of them. -/
def transduce (step : σ → α → σ × List β) : σ → List α → σ × List β
  | s, [] => (s, [])
  | s, a :: l =>
    let r := step s a
    let t := transduce step r.1 l
    (t.1, r.2 ++ t.2)

variable {step : σ → α → σ × List β}

@[simp] theorem transduce_nil (s : σ) : transduce step s [] = (s, []) := rfl

theorem transduce_cons (s : σ) (a : α) (l : List α) :
    transduce step s (a :: l) =
      ((transduce step (step s a).1 l).1, (step s a).2 ++ (transduce step (step s a).1 l).2) := rfl

theorem transduce_singleton (s : σ) (a : α) : transduce step s [a] = step s a := by
  simp [transduce_cons]

theorem transduce_append (s : σ) (l m : List α) :
    transduce step s (l ++ m) =
      ((transduce step (transduce step s l).1 m).1,
        (transduce step s l).2 ++ (transduce step (transduce step s l).1 m).2) := by
  induction l generalizing s with
  | nil => simp
  | cons a l ih => simp [transduce_cons, ih]

/-- Pieces that are read one after another are read like their concatenation. -/
theorem transduce_flatten (s : σ) (pieces : List (List α)) :
    transduce (transduce step) s pieces = transduce step s pieces.flatten := by
  induction pieces generalizing s with
  | nil => rfl
  | cons piece pieces ih =>
    rw [transduce_cons, List.flatten_cons, transduce_append, ih]

/-- A machine whose state is a function of another one's, with the same output for each
symbol. -/
theorem transduce_follows {step' : τ → α → τ × List β} (f : σ → τ)
    (h : ∀ s a, step' (f s) a = (f (step s a).1, (step s a).2)) (s : σ) (l : List α) :
    transduce step' (f s) l = (f (transduce step s l).1, (transduce step s l).2) := by
  induction l generalizing s with
  | nil => rfl
  | cons a l ih => rw [transduce_cons, h, ih, transduce_cons]

/-- What the output for one symbol satisfies, the output for a list satisfies. -/
theorem transduce_forall {P : β → Prop} (h : ∀ s a, ∀ b ∈ (step s a).2, P b) (s : σ) (l : List α) :
    ∀ b ∈ (transduce step s l).2, P b := by
  induction l generalizing s with
  | nil => simp
  | cons a l ih =>
    intro b hb
    rcases List.mem_append.mp hb with hb | hb
    · exact h s a b hb
    · exact ih _ b hb

/-- Symbols without output that change nothing are read over. -/
theorem transduce_idle {s : σ} {l : List α} (h : ∀ a ∈ l, step s a = (s, [])) :
    transduce step s l = (s, []) := by
  induction l with
  | nil => rfl
  | cons a l ih =>
    rw [transduce_cons, h a List.mem_cons_self]
    rw [ih fun b hb => h b (List.mem_cons_of_mem a hb)]
    rfl

end Uartbus.Lib
