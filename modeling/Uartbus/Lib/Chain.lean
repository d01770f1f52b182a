import Mathlib.Data.List.Nodup
import Mathlib.Logic.Function.Basic

/-!
# Chains of pointers

Cells that point at each other: `Chain next p l` says that following `next` from `p` visits the
cells of `l` in order and then ends.  A chain only depends on the pointers of its own cells, so a
store into another cell leaves it alone, and no two of its cells point at the same one.
`Chain.extend` is the store that appends a cell at the end.
-/

set_option autoImplicit false

namespace Uartbus.Lib

variable {ι : Type} {i : ι}

/-- The cells from `p` on, in order. -/
def Chain (next : ι → Option ι) : Option ι → List ι → Prop
  | p, [] => p = none
  | p, i :: l => p = some i ∧ Chain next (next i) l

variable {next next' : ι → Option ι} {p : Option ι} {l : List ι}

theorem Chain.congr (h : Chain next p l) (hsame : ∀ i ∈ l, next' i = next i) : Chain next' p l := by
  induction l generalizing p with
  | nil => exact h
  | cons i l ih =>
    refine ⟨h.1, ?_⟩
    rw [hsame i List.mem_cons_self]
    exact ih h.2 fun j hj => hsame j (List.mem_cons_of_mem i hj)

/-- The last cell points nowhere. -/
theorem Chain.last (h : Chain next p l) (hi : l.getLast? = some i) : next i = none := by
  induction l generalizing p with
  | nil => cases hi
  | cons j l ih =>
    cases l with
    | nil =>
      cases hi
      exact h.2
    | cons k l => exact ih h.2 hi

/-- A cell that another one points at comes behind the first. -/
theorem Chain.target_mem_tail (h : Chain next p l) {k : ι} (hi : i ∈ l) (hk : next i = some k) :
    k ∈ l.tail := by
  induction l generalizing p with
  | nil => cases hi
  | cons j l ih =>
    cases l with
    | nil =>
      rw [List.mem_singleton.mp hi] at hk
      cases h.2.symm.trans hk
    | cons m l =>
      rcases List.mem_cons.mp hi with rfl | hi
      · cases h.2.1.symm.trans hk
        exact List.mem_cons_self
      · exact List.mem_of_mem_tail (ih h.2 hi)

/-- No two cells point at the same cell. -/
theorem Chain.target_inj (h : Chain next p l) (hnodup : l.Nodup) {j k : ι} (hi : i ∈ l) (hj : j ∈ l)
    (hik : next i = some k) (hjk : next j = some k) : i = j := by
  induction l generalizing p with
  | nil => cases hi
  | cons m l ih =>
    obtain ⟨-, hrest⟩ := h
    have hnodupRest : l.Nodup := (List.nodup_cons.mp hnodup).2
    -- The cell the first one points at starts the rest, where no cell points at it.
    have hfirst : ∀ n ∈ l, next m = some k → next n ≠ some k := by
      intro n hn hm hnk
      cases l with
      | nil => cases hn
      | cons a l =>
        cases hrest.1.symm.trans hm
        exact (List.nodup_cons.mp hnodupRest).1 (hrest.target_mem_tail hn hnk)
    rcases List.mem_cons.mp hi with rfl | hiRest
    · rcases List.mem_cons.mp hj with rfl | hjRest
      · rfl
      · exact absurd hjk (hfirst j hjRest hik)
    · rcases List.mem_cons.mp hj with rfl | hjRest
      · exact absurd hik (hfirst i hiRest hjk)
      · exact ih hrest hnodupRest hiRest hjRest

/-- A new cell behind the last one. -/
theorem Chain.extend [DecidableEq ι] {j : ι} (h : Chain next p (l ++ [i]))
    (hnodup : (l ++ [i]).Nodup) (hnew : j ∉ l ++ [i]) (hend : next j = none) :
    Chain (Function.update next i (some j)) p (l ++ [i, j]) := by
  induction l generalizing p with
  | nil =>
    obtain ⟨hp, -⟩ := h
    have hne : j ≠ i := fun heq => hnew (heq ▸ List.mem_cons_self)
    refine ⟨hp, ?_, ?_⟩
    · rw [Function.update_self]
    · rw [Function.update_of_ne hne]
      exact hend
  | cons k l ih =>
    obtain ⟨hp, hrest⟩ := h
    have hk : k ≠ i := by
      rintro rfl
      exact (List.nodup_cons.mp hnodup).1 (List.mem_append_right _ List.mem_cons_self)
    refine ⟨hp, ?_⟩
    rw [Function.update_of_ne hk]
    exact ih hrest (List.nodup_cons.mp hnodup).2 fun hmem => hnew (List.mem_cons_of_mem k hmem)

end Uartbus.Lib
