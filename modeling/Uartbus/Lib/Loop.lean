import Uartbus.Lib.Bytes
import Mathlib.Data.List.Basic
import Mathlib.Data.List.Range
import Mathlib.Data.Nat.Digits.Lemmas
import Mathlib.Tactic.Ring

/-!
# Counted loops and positional digits

Tools for loops over `0..n`: the invariant rule for a fold over `List.range n` in either
direction (`foldl_range_invariant`, `foldl_range_reverse_invariant`), and the step of a
loop that fills a buffer from its end (`take_succ_append_set`).  A loop with checks that pass is
the loop without them (`foldlM_eq_some_foldl`).

Reading a number digit by digit from its most significant place gives the number back
(`foldl_digits_eq`).
-/

set_option autoImplicit false

namespace Uartbus.Lib

section Loops

variable {β : Type}

/-- The invariant rule of `for i in 0..n`. -/
theorem foldl_range_invariant (f : β → ℕ → β) (I : ℕ → β → Prop) (n : ℕ) (b : β)
    (h0 : I 0 b) (hs : ∀ k < n, ∀ s, I k s → I (k + 1) (f s k)) :
    I n ((List.range n).foldl f b) := by
  induction n with
  | zero => simpa using h0
  | succ n ih =>
    rw [List.range_succ, List.foldl_append]
    exact hs n (by omega) _ (ih fun k hk => hs k (by omega))

/-- The invariant rule of `for i in (0..n).rev()`: after `k` rounds the next index is
`n - 1 - k`. -/
theorem foldl_range_reverse_invariant (f : β → ℕ → β) (I : ℕ → β → Prop) (n : ℕ) (b : β)
    (h0 : I 0 b) (hs : ∀ k < n, ∀ s, I k s → I (k + 1) (f s (n - 1 - k))) :
    I n ((List.range n).reverse.foldl f b) := by
  have hrev : (List.range n).reverse = (List.range n).map fun k => n - 1 - k := by
    apply List.ext_getElem (by simp)
    intro i h₁ h₂
    simp
  rw [hrev, List.foldl_map]
  exact foldl_range_invariant (fun s k => f s (n - 1 - k)) I n b h0 hs

/-- Storing at the last index of a prefix moves the boundary between what is still to be
written and what already is. -/
theorem take_succ_append_set (l t : List β) (i : ℕ) (x : β) (hi : i < l.length) :
    (l.take (i + 1) ++ t).set i x = l.take i ++ x :: t := by
  rw [List.take_succ_eq_append_getElem hi, List.append_assoc, List.set_append_right]
  · simp [Nat.min_eq_left hi.le]
  · simp

/-- The invariant rule of a loop over a list that may fail: the invariant sees the items that
are done, and each step knows how the list splits there. -/
theorem foldlM_invariant {α ε : Type} (step : β → α → Except ε β) (I : List α → β → Prop)
    (l : List α) (b r : β) (h0 : I [] b)
    (hs : ∀ done a rest s s', l = done ++ a :: rest → I done s → step s a = .ok s' →
      I (done ++ [a]) s')
    (h : l.foldlM step b = .ok r) : I l r := by
  have key : ∀ (rest done : List α) (s : β), l = done ++ rest → I done s →
      rest.foldlM step s = .ok r → I l r := by
    intro rest
    induction rest with
    | nil =>
      intro done s hl hI hok
      rw [List.append_nil] at hl
      cases hok
      rwa [hl]
    | cons a rest ih =>
      intro done s hl hI hok
      rw [List.foldlM_cons] at hok
      cases hstep : step s a with
      | error e => simp [hstep, bind, Except.bind] at hok
      | ok s' =>
        simp only [hstep, bind, Except.bind] at hok
        exact ih (done ++ [a]) s' (by simp [hl]) (hs done a rest s s' hl hI hstep) hok
  exact key l [] b rfl h0 h

/-- A loop whose steps are checked, and pass while the invariant holds, is the loop without the
checks. -/
theorem foldlM_eq_some_foldl {α : Type} (step : β → α → Option β) (f : β → α → β) (I : β → Prop)
    {l : List α} {b : β} (h0 : I b)
    (hs : ∀ a ∈ l, ∀ s, I s → step s a = some (f s a) ∧ I (f s a)) :
    l.foldlM step b = some (l.foldl f b) := by
  induction l generalizing b with
  | nil => rfl
  | cons a l ih =>
    obtain ⟨hstep, hnext⟩ := hs a List.mem_cons_self b h0
    rw [List.foldlM_cons, hstep, List.foldl_cons]
    exact ih hnext fun c hc => hs c (List.mem_cons_of_mem a hc)

end Loops

section Digits

/-- Reading the digits of `m` in base `b` from place `n - 1` down to place `n - k` gives
the part of `m` at these places. -/
theorem foldl_digits_upto (b m n k : ℕ) (hk : k ≤ n) :
    (List.range k).foldl (fun acc j => acc * b + m / b ^ (n - 1 - j) % b) 0 =
      m / b ^ (n - k) % b ^ k := by
  induction k with
  | zero => simp [Nat.mod_one]
  | succ k ih =>
    rw [List.range_succ, List.foldl_append, ih (by omega)]
    simp only [List.foldl_cons, List.foldl_nil]
    have hplace : n - 1 - k = n - (k + 1) := by omega
    have hdiv : m / b ^ (n - k) = m / b ^ (n - (k + 1)) / b := by
      rw [Nat.div_div_eq_div_mul, ← pow_succ, show n - (k + 1) + 1 = n - k by omega]
    rw [hplace, hdiv, pow_succ', Nat.mod_mul]
    ring

/-- Reading `n` base-`b` digits from the most significant one gives the number back, when
`n` digits hold it. -/
theorem foldl_digits_eq (b m n : ℕ) (hm : m < b ^ n) :
    (List.range n).foldl (fun acc j => acc * b + m / b ^ (n - 1 - j) % b) 0 = m := by
  rw [foldl_digits_upto b m n n le_rfl, Nat.sub_self, pow_zero, Nat.div_one,
    Nat.mod_eq_of_lt hm]

/-- Numbers below the base, read as digits, are the digits of what is read. -/
theorem foldl_digits_inverse (b n : ℕ) (d : ℕ → ℕ) (hd : ∀ j < n, d j < b) :
    (List.range n).foldl (fun acc j => acc * b + d j) 0 < b ^ n ∧
      ∀ j < n, (List.range n).foldl (fun acc j => acc * b + d j) 0 / b ^ (n - 1 - j) % b =
        d j := by
  induction n with
  | zero => simp
  | succ n ih =>
    obtain ⟨hlt, hdigits⟩ := ih fun j hj => hd j (by omega)
    have hlast := hd n (by omega)
    have hb : 0 < b := by omega
    rw [List.range_succ, List.foldl_append, List.foldl_cons, List.foldl_nil]
    set acc := (List.range n).foldl (fun acc j => acc * b + d j) 0
    constructor
    · calc acc * b + d n < acc * b + b := by omega
        _ = (acc + 1) * b := by ring
        _ ≤ b ^ n * b := Nat.mul_le_mul_right b hlt
        _ = b ^ (n + 1) := (pow_succ b n).symm
    · intro j hj
      by_cases hjn : j = n
      · subst hjn
        simp [Nat.mod_eq_of_lt hlast]
      · have hplace : n + 1 - 1 - j = (n - 1 - j) + 1 := by omega
        have hdiv : (acc * b + d n) / b = acc := by
          rw [mul_comm, Nat.mul_add_div hb, Nat.div_eq_of_lt hlast, Nat.add_zero]
        rw [hplace, pow_succ', ← Nat.div_div_eq_div_mul, hdiv, hdigits j (by omega)]

end Digits

end Uartbus.Lib
