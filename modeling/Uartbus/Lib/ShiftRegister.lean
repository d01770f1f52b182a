import Mathlib.Algebra.Ring.Parity
import Mathlib.Data.List.Basic

/-!
# Feedback shift registers

A register of `w` bits that takes one bit after another and adds a feedback pattern whenever
the bit that leaves differs from the one that comes in.  This is the division of a bit string
by a polynomial, least significant bit first, and what is left in the register is its remainder.

The register is linear (`remainder_flips`), so an error is seen exactly when its own remainder
is not zero.  Two kinds of errors always are: errors within `w` neighbouring bits, when the
feedback has its top bit set (`remainder_burst_ne_zero`), and errors in an odd number of bits,
when the feedback has an odd number of bits (`remainder_odd_ne_zero`).
-/

set_option autoImplicit false

namespace Uartbus.Lib

variable {w : ℕ} {feedback reg : BitVec w} {bits xs ys : List Bool}

/-- One bit goes into the register. -/
def shiftBit (feedback reg : BitVec w) (bit : Bool) : BitVec w :=
  if (reg.getLsbD 0 ^^ bit) = true then (reg >>> 1) ^^^ feedback else reg >>> 1

/-- The register after a string of bits. -/
def remainder (feedback reg : BitVec w) (bits : List Bool) : BitVec w :=
  bits.foldl (shiftBit feedback) reg

/-- The bits in which two strings differ. -/
def flips (xs ys : List Bool) : List Bool := List.zipWith xor xs ys

/-- Strings that differ have a flipped bit. -/
theorem mem_flips_of_ne (hlen : xs.length = ys.length) (hne : xs ≠ ys) : true ∈ flips xs ys := by
  induction xs generalizing ys with
  | nil =>
    obtain rfl : ys = [] := by simpa using hlen.symm
    exact absurd rfl hne
  | cons x xs ih =>
    cases ys with
    | nil => simp at hlen
    | cons y ys =>
      have hcons : flips (x :: xs) (y :: ys) = (x ^^ y) :: flips xs ys := rfl
      rw [hcons, List.mem_cons]
      by_cases hxy : x = y
      · right
        exact ih (by simpa using hlen) fun hrest => hne (by rw [hxy, hrest])
      · left
        cases x <;> cases y <;> simp_all

@[simp] theorem remainder_nil (feedback reg : BitVec w) : remainder feedback reg [] = reg := rfl

@[simp] theorem remainder_cons (feedback reg : BitVec w) (bit : Bool) (bits : List Bool) :
    remainder feedback reg (bit :: bits) =
      remainder feedback (shiftBit feedback reg bit) bits := rfl

theorem remainder_append (feedback reg : BitVec w) (xs ys : List Bool) :
    remainder feedback reg (xs ++ ys) = remainder feedback (remainder feedback reg xs) ys :=
  List.foldl_append

/-! ## Linearity -/

theorem getLsbD_shiftBit (feedback reg : BitVec w) (bit : Bool) (i : ℕ) :
    (shiftBit feedback reg bit).getLsbD i =
      (reg.getLsbD (1 + i) ^^ ((reg.getLsbD 0 ^^ bit) && feedback.getLsbD i)) := by
  unfold shiftBit
  split <;> simp_all

theorem shiftBit_xor (feedback a b : BitVec w) (x y : Bool) :
    shiftBit feedback (a ^^^ b) (x ^^ y) = shiftBit feedback a x ^^^ shiftBit feedback b y := by
  apply BitVec.eq_of_getLsbD_eq
  intro i _
  simp only [BitVec.getLsbD_xor, getLsbD_shiftBit]
  cases a.getLsbD 0 <;> cases b.getLsbD 0 <;> cases x <;> cases y <;> cases feedback.getLsbD i <;>
    simp

theorem remainder_flips (feedback a b : BitVec w) (hlen : xs.length = ys.length) :
    remainder feedback (a ^^^ b) (flips xs ys) =
      remainder feedback a xs ^^^ remainder feedback b ys := by
  induction xs generalizing a b ys with
  | nil =>
    obtain rfl : ys = [] := by simpa using hlen.symm
    simp [flips]
  | cons x xs ih =>
    cases ys with
    | nil => simp at hlen
    | cons y ys =>
      have hrest := ih (shiftBit feedback a x) (shiftBit feedback b y) (by simpa using hlen)
      rw [← shiftBit_xor] at hrest
      simpa [flips] using hrest

/-! ## Errors close together -/

theorem shiftBit_zero_false (feedback : BitVec w) : shiftBit feedback 0 false = 0 := by
  simp [shiftBit]

theorem remainder_zeros (feedback : BitVec w) (n : ℕ) :
    remainder feedback 0 (List.replicate n false) = 0 := by
  induction n with
  | zero => rfl
  | succ n ih => rw [List.replicate_succ, remainder_cons, shiftBit_zero_false, ih]

/-- The top bit of the feedback tells whether a bit has left the register. -/
theorem eq_zero_of_shiftBit (htop : feedback.getLsbD (w - 1) = true)
    (h : shiftBit feedback reg false = 0) : reg = 0 := by
  have hw : 0 < w := by
    by_contra hzero
    obtain rfl : w = 0 := by omega
    simp at htop
  have hlow : reg.getLsbD 0 = false := by
    by_contra hset
    rw [Bool.not_eq_false] at hset
    have htopBit := congrArg (fun r => BitVec.getLsbD r (w - 1)) h
    simp only [shiftBit, hset, Bool.xor_false, if_true, BitVec.getLsbD_xor,
      BitVec.getLsbD_ushiftRight, htop, show 1 + (w - 1) = w by omega] at htopBit
    simp at htopBit
  apply BitVec.eq_of_getLsbD_eq
  intro i hi
  cases i with
  | zero => simpa using hlow
  | succ i =>
    have hbit := congrArg (fun r => BitVec.getLsbD r i) h
    simp only [shiftBit, hlow, Bool.xor_false, Bool.false_eq_true, if_false,
      BitVec.getLsbD_ushiftRight] at hbit
    simpa [Nat.add_comm] using hbit

/-- What is in the register is never lost. -/
theorem remainder_zeros_ne_zero (htop : feedback.getLsbD (w - 1) = true) (hreg : reg ≠ 0) (n : ℕ) :
    remainder feedback reg (List.replicate n false) ≠ 0 := by
  induction n generalizing reg with
  | zero => exact hreg
  | succ n ih =>
    exact ih fun h => hreg (eq_zero_of_shiftBit htop h)

/-- A string of bits as the contents of a register, the first bit at the place that leaves
first. -/
def ofBits (w : ℕ) (bits : List Bool) : BitVec w := (BitVec.ofBoolListLE bits).setWidth w

theorem getLsbD_ofBits (bits : List Bool) (i : ℕ) :
    (ofBits w bits).getLsbD i = (decide (i < w) && bits.getD i false) := by
  rw [ofBits, BitVec.getLsbD_setWidth, BitVec.getLsbD_ofBoolListLE]

theorem shiftBit_ofBits {bit : Bool} (hlen : bits.length < w) :
    shiftBit feedback (ofBits w (bit :: bits)) bit = ofBits w bits := by
  have hlow : (ofBits w (bit :: bits)).getLsbD 0 = bit := by
    rw [getLsbD_ofBits]
    simp [show 0 < w by omega]
  rw [shiftBit, hlow, Bool.xor_self, if_neg Bool.false_ne_true]
  apply BitVec.eq_of_getLsbD_eq
  intro i hi
  rw [BitVec.getLsbD_ushiftRight, getLsbD_ofBits, getLsbD_ofBits, Nat.add_comm 1 i,
    List.getD_cons_succ]
  by_cases hnext : i + 1 < w
  · simp [hnext, hi]
  · have hend : bits[i]? = none := List.getElem?_eq_none (by omega)
    simp [hend]

/-- **A block of bits.**  Up to `w` bits can be put into the register at once and shifted out
of it. -/
theorem remainder_block (feedback reg : BitVec w) (hlen : bits.length ≤ w) :
    remainder feedback reg bits =
      remainder feedback (reg ^^^ ofBits w bits) (List.replicate bits.length false) := by
  induction bits generalizing reg with
  | nil =>
    have hzero : ofBits w [] = 0 := by
      apply BitVec.eq_of_getLsbD_eq
      intro i hi
      simp [getLsbD_ofBits]
    simp [hzero]
  | cons bit bits ih =>
    have hshort : bits.length < w := by
      rw [List.length_cons] at hlen
      omega
    have hstep := shiftBit_xor feedback reg (ofBits w (bit :: bits)) bit bit
    rw [Bool.xor_self, shiftBit_ofBits hshort] at hstep
    rw [List.length_cons, List.replicate_succ, remainder_cons, remainder_cons, hstep,
      ih _ (by omega)]

/-- A register of at least as many bits keeps a short string apart from zeros. -/
theorem remainder_short_ne_zero (htop : feedback.getLsbD (w - 1) = true) (hlen : bits.length ≤ w)
    (hset : true ∈ bits) : remainder feedback 0 bits ≠ 0 := by
  rw [remainder_block feedback 0 hlen]
  apply remainder_zeros_ne_zero htop
  intro hzero
  obtain ⟨i, hi, hbit⟩ := List.getElem_of_mem hset
  have hplace : (0 ^^^ ofBits w bits).getLsbD i = (0 : BitVec w).getLsbD i := by rw [hzero]
  rw [BitVec.getLsbD_xor, getLsbD_ofBits] at hplace
  simp [hi, hbit, show i < w by omega] at hplace

/-- The bits that are set lie within `w` neighbouring places. -/
def Burst (w : ℕ) (bits : List Bool) : Prop :=
  ∃ start, ∀ i : ℕ, bits[i]? = some true → start ≤ i ∧ i < start + w

theorem eq_replicate_false (h : ∀ i : ℕ, bits[i]? ≠ some true) :
    bits = List.replicate bits.length false := by
  apply List.eq_replicate_iff.mpr
  refine ⟨rfl, fun bit hbit => ?_⟩
  obtain ⟨i, hi⟩ := List.getElem?_of_mem hbit
  cases bit with
  | false => rfl
  | true => exact absurd hi (h i)

/-- **Errors close together.**  A burst leaves a remainder. -/
theorem remainder_burst_ne_zero (htop : feedback.getLsbD (w - 1) = true) (hburst : Burst w bits)
    (hset : true ∈ bits) : remainder feedback 0 bits ≠ 0 := by
  obtain ⟨start, hin⟩ := hburst
  -- zeros up to the burst, the burst, zeros behind it
  have hbefore : bits.take start = List.replicate (bits.take start).length false := by
    apply eq_replicate_false
    intro i hi
    rw [List.getElem?_take] at hi
    split at hi
    · have := (hin i hi).1
      omega
    · simp at hi
  have hbehind : (bits.drop start).drop w =
      List.replicate ((bits.drop start).drop w).length false := by
    apply eq_replicate_false
    intro i hi
    rw [List.getElem?_drop, List.getElem?_drop] at hi
    have := (hin _ hi).2
    omega
  have hmid : true ∈ (bits.drop start).take w := by
    obtain ⟨i, hi⟩ := List.getElem?_of_mem hset
    obtain ⟨hlow, hhigh⟩ := hin i hi
    apply List.mem_of_getElem? (i := i - start)
    rw [List.getElem?_take, if_pos (by omega), List.getElem?_drop, Nat.add_sub_cancel' hlow, hi]
  have hsplit :
      bits = bits.take start ++ ((bits.drop start).take w ++ (bits.drop start).drop w) := by
    rw [List.take_append_drop, List.take_append_drop]
  rw [hsplit, remainder_append, remainder_append, hbefore, remainder_zeros, hbehind]
  apply remainder_zeros_ne_zero htop
  exact remainder_short_ne_zero htop (List.length_take_le w _) hmid

/-! ## Errors in an odd number of bits -/

/-- The sum of the bits modulo two. -/
def parity (bits : List Bool) : Bool := bits.foldr xor false

theorem parity_eq_true_iff (bits : List Bool) : parity bits = true ↔ Odd (bits.count true) := by
  induction bits with
  | nil => simp [parity]
  | cons bit bits ih =>
    have hcons : parity (bit :: bits) = (bit ^^ parity bits) := rfl
    rw [hcons]
    cases bit with
    | false => simpa using ih
    | true =>
      rw [List.count_cons_self, Nat.odd_add_one, ← ih]
      simp

/-- The bits of a register. -/
def registerBits (reg : BitVec w) : List Bool := (List.range w).map reg.getLsbD

theorem parity_map_xor (f g : ℕ → Bool) (l : List ℕ) :
    parity (l.map fun i => f i ^^ g i) = (parity (l.map f) ^^ parity (l.map g)) := by
  induction l with
  | nil => rfl
  | cons i l ih =>
    have hcons : ∀ h : ℕ → Bool, parity ((i :: l).map h) = (h i ^^ parity (l.map h)) :=
      fun h => rfl
    rw [hcons, hcons, hcons, ih]
    cases f i <;> cases g i <;> simp

theorem parity_xor (a b : BitVec w) :
    parity (registerBits (a ^^^ b)) = (parity (registerBits a) ^^ parity (registerBits b)) := by
  unfold registerBits
  rw [← parity_map_xor]
  congr 1
  apply List.map_congr_left
  intro i _
  exact BitVec.getLsbD_xor

/-- A shift takes the lowest bit away. -/
theorem parity_ushiftRight (reg : BitVec w) :
    parity (registerBits reg) = (reg.getLsbD 0 ^^ parity (registerBits (reg >>> 1))) := by
  have hall : registerBits reg ++ [false] = reg.getLsbD 0 :: registerBits (reg >>> 1) := by
    unfold registerBits
    have hend : reg.getLsbD w = false := BitVec.getLsbD_of_ge reg w le_rfl
    rw [← hend, ← List.map_singleton, ← List.map_append, ← List.range_succ, List.range_succ_eq_map,
      List.map_cons, List.map_map]
    congr 1
    apply List.map_congr_left
    intro i _
    rw [BitVec.getLsbD_ushiftRight, Nat.add_comm]
    rfl
  have hpar := congrArg parity hall
  simpa [parity] using hpar

theorem parity_shiftBit (hodd : parity (registerBits feedback) = true) (reg : BitVec w)
    (bit : Bool) :
    parity (registerBits (shiftBit feedback reg bit)) = (parity (registerBits reg) ^^ bit) := by
  rw [parity_ushiftRight reg]
  unfold shiftBit
  split
  · next hdiffer =>
      rw [parity_xor, hodd]
      cases hlow : reg.getLsbD 0 <;> cases bit <;> simp_all
  · next hsame =>
      cases hlow : reg.getLsbD 0 <;> cases bit <;> simp_all

theorem parity_remainder (hodd : parity (registerBits feedback) = true) (reg : BitVec w)
    (bits : List Bool) :
    parity (registerBits (remainder feedback reg bits)) =
      (parity (registerBits reg) ^^ parity bits) := by
  induction bits generalizing reg with
  | nil => simp [parity]
  | cons bit bits ih =>
    have hcons : parity (bit :: bits) = (bit ^^ parity bits) := rfl
    rw [remainder_cons, ih, parity_shiftBit hodd, hcons, Bool.xor_assoc]

/-- **Errors in an odd number of bits** leave a remainder. -/
theorem remainder_odd_ne_zero (hodd : parity (registerBits feedback) = true)
    (hbits : Odd (bits.count true)) : remainder feedback 0 bits ≠ 0 := by
  intro hzero
  have hpar := parity_remainder hodd 0 bits
  have hself := parity_xor (0 : BitVec w) 0
  rw [BitVec.xor_self, Bool.xor_self] at hself
  rw [hzero, show parity (registerBits (0 : BitVec w)) = false from hself, Bool.false_xor] at hpar
  rw [(parity_eq_true_iff bits).mpr hbits] at hpar
  exact Bool.false_ne_true hpar

end Uartbus.Lib
