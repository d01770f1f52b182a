import Uartbus.Lib.Loop

/-!
# The variable-length address format

The format both implementations are meant to speak (osi_level_3.md, "Variable length
addressing"), stated on its own: a magnitude `m` is cut into `n` groups of seven bits, most
significant first; bit 7 (`E`) is set on every byte but the last; bit 6 of the first byte
(`S`) is the sign, and a negative address stands for `-(addr + 1)`.

`packedBytes` writes that down for any number of groups, `Fits` says when `n` groups are
enough and `Shortest` when no fewer are.  Nothing here refers to the code.
-/

set_option autoImplicit false

namespace Uartbus.Interface

open Lib

variable {sign signed : Bool} {j m n : ℕ}

/-- The seven bit group number `j` (from the most significant) of `m` in `n` groups. -/
def group (n m j : ℕ) : ℕ := m / 128 ^ (n - 1 - j) % 128

/-- The value of byte `j`: its group, `E` unless it is the last, `S` on the first. -/
def packedByte (sign : Bool) (n m j : ℕ) : ℕ :=
  group n m j + (if j + 1 < n then 128 else 0) + (if sign = true ∧ j = 0 then 64 else 0)

/-- The bytes of the magnitude `m` in `n` groups. -/
def packedBytes (sign : Bool) (n m : ℕ) : Bytes :=
  (List.range n).map fun j => UInt8.ofNat (packedByte sign n m j)

/-- `n` groups hold `m`; in the signed mode the first group has one bit less. -/
def Fits (signed : Bool) (n m : ℕ) : Prop :=
  1 ≤ n ∧ m < if signed then 64 * 128 ^ (n - 1) else 128 ^ n

/-- `n` is the least number of groups that hold `m`. -/
def Shortest (signed : Bool) (n m : ℕ) : Prop :=
  Fits signed n m ∧ ∀ k, Fits signed k m → n ≤ k

/-- The number a sign and a magnitude stand for. -/
def signedValue (sign : Bool) (m : ℕ) : ℤ := if sign then -(m : ℤ) - 1 else m

@[simp] theorem packedBytes_length (sign : Bool) (n m : ℕ) :
    (packedBytes sign n m).length = n := by
  simp [packedBytes]

theorem packedBytes_getElem? (sign : Bool) (hj : j < n) :
    (packedBytes sign n m)[j]? = some (UInt8.ofNat (packedByte sign n m j)) := by
  simp [packedBytes, hj]

theorem group_lt (n m j : ℕ) : group n m j < 128 := Nat.mod_lt _ (by norm_num)

theorem Fits.lt_pow (h : Fits signed n m) : m < 128 ^ n := by
  obtain ⟨hn, hm⟩ := h
  obtain ⟨k, rfl⟩ : ∃ k, n = k + 1 := ⟨n - 1, by omega⟩
  cases signed with
  | false => simpa using hm
  | true =>
    simp only [if_true, Nat.add_sub_cancel] at hm
    omega

/-- In the signed mode the first group leaves the sign bit free. -/
theorem Fits.group_zero_lt (h : Fits true n m) : group n m 0 < 64 := by
  have hm := h.2
  have hdiv : m / 128 ^ (n - 1) < 64 := Nat.div_lt_of_lt_mul (by rwa [mul_comm] at hm)
  exact lt_of_le_of_lt (Nat.mod_le _ _) hdiv

/-- The sign bit only goes into a free place. -/
theorem packedByte_lt (h : sign = true → group n m 0 < 64) : packedByte sign n m j < 256 := by
  have hg := group_lt n m j
  unfold packedByte
  by_cases hs : sign = true ∧ j = 0
  · obtain ⟨hs, rfl⟩ := hs
    have := h hs
    simp only [hs, and_self, if_true]
    split <;> omega
  · rw [if_neg hs]
    split <;> omega

/-- Every byte but the last has `E` set, the last has not. -/
theorem packedByte_lt_128_iff (hj : j < n) (h : sign = true → group n m 0 < 64) :
    packedByte sign n m j < 128 ↔ j + 1 = n := by
  have hg := group_lt n m j
  unfold packedByte
  by_cases hs : sign = true ∧ j = 0
  · obtain ⟨hs, rfl⟩ := hs
    have := h hs
    simp only [hs, and_self, if_true]
    split <;> omega
  · rw [if_neg hs]
    split <;> omega

/-- The number of groups that hold a magnitude and no fewer is unique. -/
theorem Shortest.unique {k : ℕ} (hn : Shortest signed n m) (hk : Shortest signed k m) : n = k :=
  Nat.le_antisymm (hn.2 k hk.1) (hk.2 n hn.1)

/-- A magnitude that fits into `n` groups and not into `n - 1` needs exactly `n`. -/
theorem shortest_of_bounds (hfit : Fits signed n m) (hlow : n = 1 ∨ ¬ Fits signed (n - 1) m) :
    Shortest signed n m := by
  refine ⟨hfit, fun k hk => ?_⟩
  by_contra hlt
  rcases hlow with hn | hno
  · have := hk.1
    omega
  · -- fewer groups hold less, so `n - 1` of them would hold `m` as well
    apply hno
    obtain ⟨hk1, hkm⟩ := hk
    refine ⟨by omega, lt_of_lt_of_le hkm ?_⟩
    cases signed with
    | false => exact Nat.pow_le_pow_right (by norm_num) (by omega)
    | true =>
      exact Nat.mul_le_mul_left _ (Nat.pow_le_pow_right (by norm_num) (by omega))

end Uartbus.Interface
