import Mathlib.Algebra.GroupWithZero.Nat
import Uartbus.Lib.Image

/-!
# Writing through a page buffer

A memory that is written page by page: items are collected in a buffer of one page, and the
buffer is stored when it is full or when the writer is flushed.

What such a writer means is the memory with the collected items in place (`contents`).  Putting
an item in stores it there at the present position, whether or not a page is written
(`contents_put`), and a flush makes the memory equal to it (`memory_flush`).  The memory itself
changes only between the page of the position and the position (`memory_put_of_outside`).
-/

set_option autoImplicit false

namespace Uartbus.Lib

variable {a low : ℕ}

/-- A writer with pages of `n` items. -/
structure PagedWriter (α : Type) (n : ℕ) where
  position : ℕ
  buffer : Vector α n
  memory : ℕ → α

namespace PagedWriter

variable {α : Type} {n : ℕ}

/-- The start of the page of the position. -/
def base (w : PagedWriter α n) : ℕ := w.position - w.position % n

/-- The items collected and not yet stored. -/
def collected (w : PagedWriter α n) : List α := w.buffer.toList.take (w.position % n)

/-- The memory with the collected items in place. -/
def contents (w : PagedWriter α n) : ℕ → α := overlay w.memory w.base w.collected

/-- One more item; a full page is stored. -/
def put [NeZero n] (w : PagedWriter α n) (x : α) : PagedWriter α n :=
  let buffer := w.buffer.set (w.position % n) x (Nat.mod_lt _ (Nat.pos_of_neZero n))
  { position := w.position + 1
    buffer := buffer
    memory := if (w.position + 1) % n = 0 then overlay w.memory w.base buffer.toList
      else w.memory }

/-- The collected items are stored. -/
def flush (w : PagedWriter α n) : PagedWriter α n :=
  { w with memory := overlay w.memory w.base w.collected }

theorem base_add_mod (w : PagedWriter α n) : w.base + w.position % n = w.position := by
  have := Nat.mod_le w.position n
  unfold base
  omega

theorem memory_flush (w : PagedWriter α n) : w.flush.memory = w.contents := rfl

theorem contents_flush (w : PagedWriter α n) : w.flush.contents = w.contents :=
  overlay_overlay w.memory w.base w.collected

/-- At the start of a page nothing is collected. -/
theorem contents_of_aligned {w : PagedWriter α n} (h : w.position % n = 0) :
    w.contents = w.memory := by
  unfold contents collected
  rw [h, List.take_zero, overlay_nil]

variable [NeZero n]

/-- The next position is on the same page or starts the next one. -/
theorem succ_mod_cases (p : ℕ) :
    (p % n + 1 = n ∧ (p + 1) % n = 0) ∨ (p + 1) % n = p % n + 1 := by
  have hlt : p % n < n := Nat.mod_lt _ (Nat.pos_of_neZero n)
  rw [Nat.add_mod, Nat.add_mod_mod]
  rcases Nat.lt_or_ge (p % n + 1) n with h | h
  · exact .inr (Nat.mod_eq_of_lt h)
  · have heq : p % n + 1 = n := by omega
    exact .inl ⟨heq, by rw [heq, Nat.mod_self]⟩

theorem length_collected (w : PagedWriter α n) : w.collected.length = w.position % n := by
  have hlt : w.position % n < n := Nat.mod_lt _ (Nat.pos_of_neZero n)
  unfold collected
  rw [List.length_take, Vector.length_toList]
  omega

@[simp] theorem position_put (w : PagedWriter α n) (x : α) :
    (w.put x).position = w.position + 1 := rfl

/-- The buffer up to and including the item just put in. -/
theorem take_buffer_put (w : PagedWriter α n) (x : α) :
    (w.put x).buffer.toList.take (w.position % n + 1) = w.collected ++ [x] := by
  have hlt : w.position % n < w.buffer.toList.length := by
    rw [Vector.length_toList]
    exact Nat.mod_lt _ (Nat.pos_of_neZero n)
  have htake : (w.buffer.toList.take (w.position % n)).length = w.position % n :=
    length_collected w
  unfold put collected
  rw [Vector.toList_set, List.take_set, List.take_succ_eq_append_getElem hlt,
    List.set_append_right _ _ (Nat.le_of_eq htake), htake, Nat.sub_self]
  rfl

/-- **Putting an item in** stores it at the position. -/
theorem contents_put (w : PagedWriter α n) (x : α) :
    (w.put x).contents = Function.update w.contents w.position x := by
  have hplaced : overlay w.memory w.base (w.collected ++ [x]) =
      Function.update w.contents w.position x := by
    rw [overlay_append, length_collected, base_add_mod, overlay_singleton]
    rfl
  rw [← hplaced, ← take_buffer_put]
  rcases succ_mod_cases (n := n) w.position with ⟨hall, hfull⟩ | hmod
  · -- the page is complete: it is stored as it is and nothing stays collected
    rw [contents_of_aligned hfull, hall, List.take_of_length_le (by simp)]
    simp [put, hfull]
  · have hbase : (w.put x).base = w.base := by
      unfold base
      rw [position_put, hmod]
      omega
    unfold contents collected
    rw [hbase, position_put, hmod]
    simp [put, hmod]

/-- The memory changes at most from the start of the page up to the position. -/
theorem memory_put_of_outside (w : PagedWriter α n) (x : α) (h : a < w.base ∨ w.position < a) :
    (w.put x).memory a = w.memory a := by
  rcases succ_mod_cases (n := n) w.position with ⟨hall, hfull⟩ | hmod
  · have hbase := w.base_add_mod
    simp only [put, hfull, if_true]
    apply overlay_of_outside
    rw [Vector.length_toList]
    omega
  · simp [put, hmod]

/-- A page boundary below the position is below its page. -/
theorem le_base {w : PagedWriter α n} (hpage : n ∣ low) (hle : low ≤ w.position) :
    low ≤ w.base := by
  obtain ⟨k, rfl⟩ := hpage
  have hk : k ≤ w.position / n := by
    rw [Nat.le_div_iff_mul_le (Nat.pos_of_neZero n), Nat.mul_comm]
    exact hle
  have hdiv := Nat.div_add_mod w.position n
  have hmul := Nat.mul_le_mul_left n hk
  have hbase := w.base_add_mod
  omega

/-- The items one after another. -/
def putAll (w : PagedWriter α n) (xs : List α) : PagedWriter α n := xs.foldl put w

theorem position_putAll (w : PagedWriter α n) (xs : List α) :
    (w.putAll xs).position = w.position + xs.length := by
  induction xs generalizing w with
  | nil => rfl
  | cons x xs ih =>
    show ((w.put x).putAll xs).position = _
    rw [ih, position_put, List.length_cons]
    omega

theorem contents_putAll (w : PagedWriter α n) (xs : List α) :
    (w.putAll xs).contents = overlay w.contents w.position xs := by
  induction xs generalizing w with
  | nil => rw [overlay_nil]; rfl
  | cons x xs ih =>
    have hcons : x :: xs = [x] ++ xs := rfl
    show ((w.put x).putAll xs).contents = _
    rw [ih, contents_put, position_put, hcons, overlay_append, overlay_singleton]
    rfl

/-- The memory below a page boundary and from the new position on is as before. -/
theorem memory_putAll_of_outside (w : PagedWriter α n) (xs : List α) (hpage : n ∣ low)
    (hle : low ≤ w.position) (h : a < low ∨ w.position + xs.length ≤ a) :
    (w.putAll xs).memory a = w.memory a := by
  induction xs generalizing w with
  | nil => rfl
  | cons x xs ih =>
    have hbase := le_base hpage hle
    rw [List.length_cons] at h
    show ((w.put x).putAll xs).memory a = _
    rw [ih (w.put x) (by rw [position_put]; omega) (by rw [position_put]; omega)]
    exact memory_put_of_outside w x (by omega)

/-- A flush stores between the page and the position. -/
theorem memory_flush_of_outside (w : PagedWriter α n) (hpage : n ∣ low) (hle : low ≤ w.position)
    (h : a < low ∨ w.position ≤ a) : w.flush.memory a = w.memory a := by
  have hbase := le_base hpage hle
  have hmod := w.base_add_mod
  apply overlay_of_outside
  rw [length_collected]
  omega

end PagedWriter

end Uartbus.Lib
