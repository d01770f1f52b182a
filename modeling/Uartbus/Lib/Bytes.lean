import Mathlib.Data.Nat.Notation

/-!
# Bytes

Bytes are lists of `UInt8`.  What holds of the numbers below 256 holds of every byte
(`forall_byte`), and the other lemmas say what masking a byte with `0x7f`, `0x3f`, `0x80` or
`0x40` does to its value.
-/

set_option autoImplicit false

namespace Uartbus

abbrev Bytes := List UInt8

namespace Lib

theorem and_0x7f_toNat (b : UInt8) : (b &&& 0x7f).toNat = b.toNat % 128 := by
  rw [UInt8.toNat_and]
  exact Nat.and_two_pow_sub_one_eq_mod b.toNat 7

theorem and_0x3f_toNat (b : UInt8) : (b &&& 0x3f).toNat = b.toNat % 64 := by
  rw [UInt8.toNat_and]
  exact Nat.and_two_pow_sub_one_eq_mod b.toNat 6

/-- A property of all bytes follows from the 256 numbers below 256. -/
theorem forall_byte {P : ℕ → Prop} (h : ∀ i : Fin 256, P i.val) (b : UInt8) : P b.toNat :=
  h ⟨b.toNat, b.toNat_lt⟩

/-- What holds of the bytes with the numbers below 256 holds of every byte. -/
theorem forall_uint8 {P : UInt8 → Prop} (h : ∀ i : Fin 256, P (UInt8.ofNat i.val)) (b : UInt8) :
    P b := by
  have hb := forall_byte (P := fun n => P (UInt8.ofNat n)) h b
  rwa [UInt8.ofNat_toNat] at hb

theorem and_0x80_eq_zero_iff (b : UInt8) : b &&& 0x80 = 0 ↔ b.toNat < 128 := by
  rw [← UInt8.toNat_inj, UInt8.toNat_and]
  exact forall_byte (P := fun n => n &&& 128 = 0 ↔ n < 128) (by decide +kernel) b

theorem and_0x40_eq_zero_iff (b : UInt8) : b &&& 0x40 = 0 ↔ b.toNat % 128 < 64 := by
  rw [← UInt8.toNat_inj, UInt8.toNat_and]
  exact forall_byte (P := fun n => n &&& 64 = 0 ↔ n % 128 < 64) (by decide +kernel) b

theorem or_0x80_eq_add {n : ℕ} (h : n < 128) : n ||| 0x80 = n + 128 := by
  rw [Nat.or_comm, show (0x80 : ℕ) = 2 ^ 7 * 1 from rfl, ← Nat.two_pow_add_eq_or_of_lt h]
  omega

theorem or_0x40_eq_add {n : ℕ} (h : n < 256) (hbit : n % 128 < 64) : n ||| 0x40 = n + 64 := by
  have hall : ∀ i : Fin 256, i.val % 128 < 64 → i.val ||| 64 = i.val + 64 := by decide +kernel
  exact hall ⟨n, h⟩ hbit

end Lib

end Uartbus
