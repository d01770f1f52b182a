import Mathlib.Data.Nat.Digits.Defs
import Mathlib.Tactic.Ring

/-!
# Regrouping digits

A register takes in digits of `i` bits and gives out digits of `o` bits, most significant first.
What it has given out and the bits it still holds are, read as one number, the number of the digits
that went in (`Regroup.After.push`).  Digits of a number are determined by their count, so the
digits that come out are known from that number alone (`Regroup.After.out_eq`).
-/

set_option autoImplicit false

namespace Uartbus.Lib

/-! ## Numbers by their digits -/

/-- The number with these digits in base `b`, the most significant one first. -/
def positional (b : ℕ) (digits : List ℕ) : ℕ := Nat.ofDigits b digits.reverse

variable {b : ℕ} {l m : List ℕ}

@[simp] theorem positional_nil : positional b [] = 0 := rfl

theorem positional_append (l m : List ℕ) :
    positional b (l ++ m) = positional b l * b ^ m.length + positional b m := by
  rw [positional, List.reverse_append, Nat.ofDigits_append, List.length_reverse, Nat.add_comm,
    Nat.mul_comm]
  rfl

theorem positional_concat (l : List ℕ) (x : ℕ) :
    positional b (l ++ [x]) = positional b l * b + x := by
  have hdigit : positional b [x] = x := Nat.ofDigits_singleton
  rw [positional_append, List.length_singleton, pow_one, hdigit]

theorem positional_inj (hb : 1 < b) (hlength : l.length = m.length) (hl : ∀ x ∈ l, x < b)
    (hm : ∀ x ∈ m, x < b) (h : positional b l = positional b m) : l = m := by
  apply List.reverse_inj.mp
  apply Nat.ofDigits_inj_of_len_eq hb
  · rw [List.length_reverse, List.length_reverse, hlength]
  · exact fun x hx => hl x (List.mem_reverse.mp hx)
  · exact fun x hx => hm x (List.mem_reverse.mp hx)
  · exact h

/-! ## The register -/

/-- The lowest `bits` bits of what came in are not given out yet. -/
structure Regroup where
  acc : ℕ
  bits : ℕ
  out : List ℕ

namespace Regroup

def empty : Regroup := { acc := 0, bits := 0, out := [] }

/-- A digit of `i` bits comes in; one of `o` bits goes out when there are enough. -/
def push (i o : ℕ) (r : Regroup) (x : ℕ) : Regroup :=
  if o ≤ r.bits + i then
    { acc := (r.acc * 2 ^ i + x) % 2 ^ (r.bits + i - o)
      bits := r.bits + i - o
      out := r.out ++ [(r.acc * 2 ^ i + x) / 2 ^ (r.bits + i - o)] }
  else { acc := r.acc * 2 ^ i + x, bits := r.bits + i, out := r.out }

/-- The register behind some digits. -/
structure After (i o : ℕ) (digits : List ℕ) (r : Regroup) : Prop where
  bits_lt : r.bits < o
  acc_lt : r.acc < 2 ^ r.bits
  out_lt : ∀ y ∈ r.out, y < 2 ^ o
  count : o * r.out.length + r.bits = i * digits.length
  value : positional (2 ^ o) r.out * 2 ^ r.bits + r.acc = positional (2 ^ i) digits

variable {i o x : ℕ} {digits : List ℕ} {r : Regroup}

theorem after_empty (ho : 0 < o) : After i o [] empty where
  bits_lt := ho
  acc_lt := Nat.two_pow_pos 0
  out_lt := List.forall_mem_nil _
  count := rfl
  value := rfl

/-- The number in the register with a digit behind it. -/
theorem After.acc_push_lt (h : After i o digits r) (hx : x < 2 ^ i) :
    r.acc * 2 ^ i + x < 2 ^ (r.bits + i) := by
  calc r.acc * 2 ^ i + x < r.acc * 2 ^ i + 2 ^ i := by omega
    _ = (r.acc + 1) * 2 ^ i := by ring
    _ ≤ 2 ^ r.bits * 2 ^ i := Nat.mul_le_mul_right _ h.acc_lt
    _ = 2 ^ (r.bits + i) := (pow_add 2 r.bits i).symm

/-- **A digit comes in.** -/
theorem After.push (hio : i ≤ o) (h : After i o digits r) (hx : x < 2 ^ i) :
    After i o (digits ++ [x]) (r.push i o x) := by
  have hlt := h.acc_push_lt hx
  have hbits := h.bits_lt
  have hcount : i * (digits ++ [x]).length = o * r.out.length + r.bits + i := by
    rw [List.length_append, List.length_singleton, Nat.mul_add, Nat.mul_one, h.count]
  have hvalue : positional (2 ^ i) (digits ++ [x]) =
      positional (2 ^ o) r.out * 2 ^ (r.bits + i) + (r.acc * 2 ^ i + x) := by
    rw [positional_concat, ← h.value, pow_add]
    ring
  unfold Regroup.push
  split
  next hfull =>
    have hsplit : r.bits + i = o + (r.bits + i - o) := by omega
    generalize r.bits + i - o = rest at hsplit
    generalize r.acc * 2 ^ i + x = acc at hlt hvalue
    rw [hsplit] at hlt hvalue
    have hdigit : acc / 2 ^ rest < 2 ^ o := by
      rw [Nat.div_lt_iff_lt_mul (Nat.two_pow_pos rest), ← pow_add]
      exact hlt
    refine ⟨?_, Nat.mod_lt _ (Nat.two_pow_pos rest), ?_, ?_, ?_⟩
    · show rest < o
      omega
    · intro y hy
      rcases List.mem_append.mp hy with hy | hy
      · exact h.out_lt y hy
      · rwa [List.mem_singleton.mp hy]
    · show o * (r.out ++ [acc / 2 ^ rest]).length + rest = _
      rw [hcount, List.length_append, List.length_singleton, Nat.mul_add, Nat.mul_one]
      omega
    · show positional (2 ^ o) (r.out ++ [acc / 2 ^ rest]) * 2 ^ rest + acc % 2 ^ rest = _
      rw [hvalue, positional_concat, pow_add, Nat.add_mul, Nat.add_assoc,
        Nat.mul_comm (acc / 2 ^ rest), Nat.div_add_mod, Nat.mul_assoc]
  next hroom =>
    refine ⟨Nat.not_le.mp hroom, hlt, h.out_lt, ?_, hvalue.symm⟩
    rw [hcount, Nat.add_assoc]

/-- **What has come out.**  If the digits are those of a number with `pad` bits behind it, the
digits of the number have come out. -/
theorem After.out_eq (h : After i o digits r) {expected : List ℕ} {pad : ℕ}
    (hlt : ∀ y ∈ expected, y < 2 ^ o) (hpad : pad < o)
    (hcount : o * expected.length + pad = i * digits.length)
    (hvalue : positional (2 ^ o) expected * 2 ^ pad = positional (2 ^ i) digits) :
    r.out = expected := by
  have hbits := h.bits_lt
  have htotal := h.count.trans hcount.symm
  have hlength : r.out.length = expected.length := by
    have hdiv := congrArg (· / o) htotal
    simpa only [Nat.mul_add_div (Nat.zero_lt_of_lt hpad), Nat.div_eq_of_lt hbits,
      Nat.div_eq_of_lt hpad, Nat.add_zero] using hdiv
  have hrest : r.bits = pad := by
    rw [hlength] at htotal
    omega
  have hnumber := h.value.trans hvalue.symm
  have hacc := h.acc_lt
  rw [hrest] at hnumber hacc
  apply positional_inj (Nat.one_lt_two_pow (by omega)) hlength h.out_lt hlt
  -- The bits that are left are those behind the number.
  have hdiv := congrArg (· / 2 ^ pad) hnumber
  simpa only [Nat.mul_comm _ (2 ^ pad), Nat.mul_add_div (Nat.two_pow_pos pad),
    Nat.div_eq_of_lt hacc, Nat.add_zero, Nat.mul_div_cancel_left _ (Nat.two_pow_pos pad)] using hdiv

end Regroup

end Uartbus.Lib
