import Mathlib.Data.List.Basic
import Mathlib.Logic.Function.Basic

/-!
# Bytes placed in an address space

A list placed from an address on, as the relation "the item at address `a` is `x`".  Appending
to the list extends the image at its end, and the addresses covered are an interval.

`overlay` writes a list into a memory, `readRange` reads an interval of it back.
-/

set_option autoImplicit false

namespace Uartbus.Lib

variable {α : Type} {data : List α} {memory : ℕ → α} {a start : ℕ}

/-- `data`, placed from `start` on, has `x` at address `a`. -/
def PlacedAt (start : ℕ) (data : List α) (a : ℕ) (x : α) : Prop :=
  start ≤ a ∧ data[a - start]? = some x

@[simp] theorem placedAt_nil (start a : ℕ) (x : α) : ¬ PlacedAt start [] a x := by
  simp [PlacedAt]

theorem PlacedAt.bounds {x : α} (h : PlacedAt start data a x) :
    start ≤ a ∧ a < start + data.length := by
  obtain ⟨hle, hget⟩ := h
  have hlt := (List.getElem?_eq_some_iff.mp hget).1
  omega

/-- Every address of the interval is covered. -/
theorem exists_placedAt (hle : start ≤ a) (hlt : a < start + data.length) :
    ∃ x, PlacedAt start data a x := by
  have h : a - start < data.length := by omega
  exact ⟨data[a - start], hle, List.getElem?_eq_getElem h⟩

/-- Appending places the second list where the first one ends. -/
theorem placedAt_append (start : ℕ) (data more : List α) (a : ℕ) (x : α) :
    PlacedAt start (data ++ more) a x ↔
      PlacedAt start data a x ∨ PlacedAt (start + data.length) more a x := by
  unfold PlacedAt
  by_cases hlt : a - start < data.length
  · rw [List.getElem?_append_left hlt]
    constructor
    · exact .inl
    · rintro (h | ⟨hle, -⟩)
      · exact h
      · omega
  · rw [List.getElem?_append_right (by omega), Nat.sub_sub]
    constructor
    · rintro ⟨hle, hget⟩
      exact .inr ⟨by omega, hget⟩
    · rintro (⟨-, hget⟩ | ⟨hle, hget⟩)
      · exact absurd (List.getElem?_eq_some_iff.mp hget).1 hlt
      · exact ⟨by omega, hget⟩

/-! ## Memories -/

/-- The memory with `data` stored from `start` on. -/
def overlay (memory : ℕ → α) (start : ℕ) (data : List α) : ℕ → α := fun a =>
  if start ≤ a then data[a - start]?.getD (memory a) else memory a

theorem overlay_of_placedAt {x : α} (h : PlacedAt start data a x) :
    overlay memory start data a = x := by
  unfold overlay
  rw [if_pos h.1, h.2, Option.getD_some]

theorem overlay_of_outside (h : a < start ∨ start + data.length ≤ a) :
    overlay memory start data a = memory a := by
  unfold overlay
  split
  next hle =>
    rw [List.getElem?_eq_none (by omega), Option.getD_none]
  next => rfl

@[simp] theorem overlay_nil (memory : ℕ → α) (start : ℕ) : overlay memory start [] = memory := by
  funext a
  exact overlay_of_outside (by simp only [List.length_nil]; omega)

/-- Appending stores the second list where the first one ends. -/
theorem overlay_append (memory : ℕ → α) (start : ℕ) (data more : List α) :
    overlay memory start (data ++ more) =
      overlay (overlay memory start data) (start + data.length) more := by
  funext a
  by_cases hout : a < start ∨ start + (data ++ more).length ≤ a
  · have hlen : (data ++ more).length = data.length + more.length := List.length_append
    rw [overlay_of_outside hout, overlay_of_outside (by omega), overlay_of_outside (by omega)]
  · obtain ⟨x, hx⟩ : ∃ x, PlacedAt start (data ++ more) a x :=
      exists_placedAt (by omega) (by omega)
    rw [overlay_of_placedAt hx]
    rcases (placedAt_append start data more a x).mp hx with hd | hm
    · have := hd.bounds
      rw [overlay_of_outside (by omega), overlay_of_placedAt hd]
    · rw [overlay_of_placedAt hm]

theorem overlay_singleton (memory : ℕ → α) (start : ℕ) (x : α) :
    overlay memory start [x] = Function.update memory start x := by
  funext a
  by_cases ha : a = start
  · subst ha
    exact overlay_of_placedAt ⟨Nat.le_refl a, by simp⟩
  · rw [Function.update_of_ne ha]
    exact overlay_of_outside (by simp only [List.length_singleton]; omega)

theorem overlay_cons (memory : ℕ → α) (start : ℕ) (x : α) (xs : List α) :
    overlay memory start (x :: xs) = overlay (Function.update memory start x) (start + 1) xs := by
  have happend := overlay_append memory start [x] xs
  rwa [List.singleton_append, List.length_singleton, overlay_singleton] at happend

/-- Storing the same again changes nothing. -/
theorem overlay_overlay (memory : ℕ → α) (start : ℕ) (data : List α) :
    overlay (overlay memory start data) start data = overlay memory start data := by
  funext a
  by_cases hout : a < start ∨ start + data.length ≤ a
  · rw [overlay_of_outside hout]
  · obtain ⟨x, hx⟩ : ∃ x, PlacedAt start data a x := exists_placedAt (by omega) (by omega)
    rw [overlay_of_placedAt hx, overlay_of_placedAt hx]

/-- The items at the addresses from `lo` up to `hi`, in order. -/
def readRange (memory : ℕ → α) (lo hi : ℕ) : List α := (List.range' lo (hi - lo)).map memory

theorem readRange_eq_iff :
    readRange memory start (start + data.length) = data ↔
      ∀ a x, PlacedAt start data a x → memory a = x := by
  unfold readRange PlacedAt
  constructor
  · rintro h a x ⟨hle, hget⟩
    rw [← h, List.getElem?_map, Option.map_eq_some_iff] at hget
    obtain ⟨b, hb, hx⟩ := hget
    obtain ⟨hlt, hb⟩ := List.getElem?_eq_some_iff.mp hb
    rw [List.getElem_range'] at hb
    rw [← hx, ← hb]
    congr 1
    omega
  · intro h
    apply List.ext_getElem (by simp)
    intro i h₁ h₂
    rw [List.getElem_map, List.getElem_range']
    apply h
    constructor
    · omega
    · rw [Nat.one_mul, Nat.add_sub_cancel_left, List.getElem?_eq_getElem h₂]

/-- What was stored is read back. -/
theorem readRange_overlay (memory : ℕ → α) (start : ℕ) (data : List α) :
    readRange (overlay memory start data) start (start + data.length) = data :=
  readRange_eq_iff.mpr fun _ _ h => overlay_of_placedAt h

end Uartbus.Lib
