import Uartbus.Lib.Image

/-!
# Stores into a memory

A memory together with the addresses that have been stored to, in order.  Code that is given a
pointer and a size stores where its arithmetic leads it, so whether it keeps to the size is a
question about `written`.

`storeAll` stores a list cell by cell: the memory is overlaid with it, and the addresses are an
interval.  A list that is read from a memory is written as the memory is (`readRange_set`), also
behind its end.
-/

set_option autoImplicit false

namespace Uartbus.Lib

variable {β : Type}

structure Stored (β : Type) where
  memory : ℕ → β
  written : List ℕ

namespace Stored

/-- A memory before the first store. -/
def untouched (memory : ℕ → β) : Stored β := { memory := memory, written := [] }

def store (s : Stored β) (i : ℕ) (x : β) : Stored β :=
  { memory := Function.update s.memory i x, written := s.written ++ [i] }

/-- The cells from `base` on, one after another. -/
def storeAll (s : Stored β) (base : ℕ) : List β → Stored β
  | [] => s
  | x :: xs => (s.store base x).storeAll (base + 1) xs

/-- No store goes to `bound` or behind it. -/
def Within (s : Stored β) (bound : ℕ) : Prop := ∀ i ∈ s.written, i < bound

variable {s : Stored β} {i bound : ℕ} {x : β}

@[simp] theorem store_memory : (s.store i x).memory = Function.update s.memory i x := rfl

@[simp] theorem store_written : (s.store i x).written = s.written ++ [i] := rfl

@[simp] theorem within_untouched (memory : ℕ → β) : (untouched memory).Within bound :=
  List.forall_mem_nil _

@[simp] theorem within_store : (s.store i x).Within bound ↔ s.Within bound ∧ i < bound := by
  unfold Within
  rw [store_written, List.forall_mem_append, List.forall_mem_singleton]

@[simp] theorem storeAll_memory (s : Stored β) (base : ℕ) (data : List β) :
    (s.storeAll base data).memory = overlay s.memory base data := by
  induction data generalizing s base with
  | nil => rw [overlay_nil]; rfl
  | cons x xs ih =>
    rw [storeAll, ih, store_memory, overlay_cons]

@[simp] theorem storeAll_written (s : Stored β) (base : ℕ) (data : List β) :
    (s.storeAll base data).written = s.written ++ List.range' base data.length := by
  induction data generalizing s base with
  | nil => simp [storeAll]
  | cons x xs ih =>
    rw [storeAll, ih, store_written, List.length_cons, List.range'_succ, List.append_assoc,
      List.singleton_append]

theorem storeAll_untouched (memory : ℕ → β) (base : ℕ) (data : List β) :
    (untouched memory).storeAll base data =
      { memory := overlay memory base data, written := List.range' base data.length } := by
  have hwritten := storeAll_written (untouched memory) base data
  have hmemory := storeAll_memory (untouched memory) base data
  cases hresult : (untouched memory).storeAll base data with
  | mk cells addresses =>
    rw [hresult] at hwritten hmemory
    rw [show cells = _ from hmemory, show addresses = _ from hwritten]
    rfl

theorem Within.storeAll {base : ℕ} {data : List β} (h : s.Within bound)
    (hfit : base + data.length ≤ bound) : (s.storeAll base data).Within bound := by
  intro i hi
  rw [storeAll_written, List.mem_append, List.mem_range'_1] at hi
  rcases hi with hi | hi
  · exact h i hi
  · omega

end Stored

/-! ## Lists that a memory holds -/

section Lists

variable (memory : ℕ → β)

@[simp] theorem readRange_length (lo hi : ℕ) : (readRange memory lo hi).length = hi - lo := by
  simp [readRange]

theorem readRange_append {lo mid hi : ℕ} (h : lo ≤ mid) (h' : mid ≤ hi) :
    readRange memory lo mid ++ readRange memory mid hi = readRange memory lo hi := by
  have hrange := List.range'_append_1 (s := lo) (m := mid - lo) (n := hi - mid)
  rw [Nat.add_sub_cancel' h, show mid - lo + (hi - mid) = hi - lo by omega] at hrange
  rw [readRange, readRange, ← List.map_append, hrange, readRange]

theorem readRange_set (lo hi i : ℕ) (x : β) :
    (readRange memory lo hi).set i x = readRange (Function.update memory (lo + i) x) lo hi := by
  apply List.ext_getElem (by simp)
  intro j _ _
  simp only [readRange, List.getElem_set, List.getElem_map, List.getElem_range', Nat.one_mul]
  by_cases hij : i = j
  · rw [if_pos hij, hij, Function.update_self]
  · rw [if_neg hij, Function.update_of_ne (by omega)]

end Lists

end Uartbus.Lib
