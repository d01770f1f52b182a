import Uartbus.Analysis.PackValue
import Uartbus.Model.JavaTools

/-!
# The Java and the Rust integer code

The Java encoder takes the same groups as the Rust encoder as long as it reads bytes the
magnitude has (`java_packLoop_eq`).  It reads one byte too many exactly when the magnitude is a
positive number of times 56 bits long and a sign bit is needed on top of it: then the last group
is all sign.

The Java decoder clears the sign bit where it writes the first byte of the number.  When the
number of groups is a multiple of eight, the sign bit has gone into the second byte by then, so a
negative value is read with an additional bit (`java_unpackValue_packedBytes`).

`java_agrees_iff` puts this together: for which values the tools agree.
-/

set_option autoImplicit false

namespace Uartbus.Analysis

open Lib Interface Model

variable {dst : Bytes} {signed : Bool} {c i k m n x : ℕ} {v : ℤ}

/-! ## The bytes of a magnitude -/

/-- The last `len` base 256 digits of a number, most significant first. -/
def digitsBe (len m : ℕ) : Bytes :=
  (List.range len).map fun i => UInt8.ofNat (m / 256 ^ (len - 1 - i) % 256)

@[simp] theorem length_digitsBe (len m : ℕ) : (digitsBe len m).length = len := by
  simp [digitsBe]

theorem digitsBe_succ (len m : ℕ) :
    digitsBe (len + 1) m = UInt8.ofNat (m / 256 ^ len % 256) :: digitsBe len m := by
  unfold digitsBe
  rw [List.range_succ_eq_map, List.map_cons, List.map_map]
  congr 1
  apply List.map_congr_left
  intro i _
  simp only [Function.comp_apply]
  rw [show len + 1 - 1 - i.succ = len - 1 - i by omega]

theorem toByteArray_natCast (m : ℕ) : Java.toByteArray m = digitsBe (m.size / 8 + 1) m := by
  unfold Java.toByteArray digitsBe
  apply List.map_congr_left
  intro i _
  congr 1

theorem digitsBe_isMagnitude {len : ℕ} (hlen : 0 < len) (hlt : m < 256 ^ len)
    (hlead : 256 ^ (len - 1) ≤ m) : IsMagnitude (digitsBe len m) m := by
  refine ⟨by simpa using hlen, fun j hj => ?_, by simpa using hlt, .inl (by simpa using hlead)⟩
  rw [length_digitsBe] at hj ⊢
  have hidx : ((len : ℤ) - 1 - j).toNat = len - 1 - j := by omega
  unfold byteAt digitsBe
  rw [hidx, List.getD_eq_getElem?_getD, List.getElem?_map, List.getElem?_range (by omega),
    Option.map_some, Option.getD_some, show len - 1 - (len - 1 - j) = j by omega]
  simp

/-- What `packValue` hands to the encoder: the magnitude without a leading zero byte. -/
def javaMagnitude (m : ℕ) : Bytes :=
  if (Java.toByteArray m).headD 0 = 0 then (Java.toByteArray m).tail else Java.toByteArray m

theorem javaMagnitude_zero : javaMagnitude 0 = [] := by
  rfl

/-- The length of a magnitude in bytes. -/
theorem pow_256_size (hm : m ≠ 0) :
    m < 256 ^ ((m.size + 7) / 8) ∧ 256 ^ ((m.size + 7) / 8 - 1) ≤ m := by
  have hpos : 0 < m.size := Nat.size_pos.mpr (Nat.pos_of_ne_zero hm)
  have hlow : 2 ^ (m.size - 1) ≤ m := Nat.lt_size.mp (by omega)
  rw [show (256 : ℕ) = 2 ^ 8 from rfl, ← pow_mul, ← pow_mul]
  constructor
  · exact lt_of_lt_of_le m.lt_size_self (Nat.pow_le_pow_right (by norm_num) (by omega))
  · exact le_trans (Nat.pow_le_pow_right (by norm_num) (by omega)) hlow

theorem javaMagnitude_eq (hm : m ≠ 0) : javaMagnitude m = digitsBe ((m.size + 7) / 8) m := by
  obtain ⟨hlt, hlead⟩ := pow_256_size hm
  unfold javaMagnitude
  rw [toByteArray_natCast, digitsBe_succ, List.headD_cons, List.tail_cons, ← digitsBe_succ]
  by_cases hfull : m.size % 8 = 0
  · -- the leading byte is there for the sign only
    rw [show (m.size + 7) / 8 = m.size / 8 by omega] at hlt ⊢
    rw [if_pos (by simp [Nat.div_eq_of_lt hlt])]
  · rw [show (m.size + 7) / 8 = m.size / 8 + 1 by omega] at hlt hlead ⊢
    have htop : m / 256 ^ (m.size / 8) < 256 := Nat.div_lt_of_lt_mul (by rwa [← pow_succ])
    have hone : 0 < m / 256 ^ (m.size / 8) := Nat.div_pos hlead (by positivity)
    rw [if_neg]
    rw [Nat.mod_eq_of_lt htop, ← UInt8.toNat_inj, UInt8.toNat_ofNat', Nat.mod_eq_of_lt htop]
    exact hone.ne'

theorem javaMagnitude_isMagnitude (hm : m ≠ 0) :
    IsMagnitude (javaMagnitude m) m ∧ (javaMagnitude m).length = (m.size + 7) / 8 := by
  obtain ⟨hlt, hlead⟩ := pow_256_size hm
  have hpos : 0 < m.size := Nat.size_pos.mpr (Nat.pos_of_ne_zero hm)
  rw [javaMagnitude_eq hm, length_digitsBe]
  exact ⟨digitsBe_isMagnitude (by omega) hlt hlead, rfl⟩

/-! ## The number of groups -/

theorem wrapInt_add (a b : ℤ) : Java.wrapInt (Java.wrapInt a + b) = Java.wrapInt (a + b) :=
  Int.bmod_add_bmod

theorem wrapInt_of_lt {a : ℤ} (hlow : 0 ≤ a) (hlt : a < 2 ^ 31) : Java.wrapInt a = a := by
  unfold Java.wrapInt
  rw [Int.bmod_eq_iff (by norm_num)]
  refine ⟨?_, ?_, ?_⟩
  · norm_num
    omega
  · norm_num
    omega
  · simp

theorem wrapInt_lt (a : ℤ) : Java.wrapInt a < 2 ^ 31 := by
  have h := Int.bmod_lt (x := a) (m := 2 ^ 32) (by norm_num)
  unfold Java.wrapInt
  exact h

theorem java_countBits_eq (lst : ℕ) (a : ℤ) :
    Java.countBits lst (Java.wrapInt a) = Java.wrapInt (a + lst.size) := by
  induction lst using Nat.strong_induction_on generalizing a with
  | _ lst ih =>
    rw [Java.countBits]
    by_cases hzero : lst = 0
    · simp [hzero]
    · have hhalf : lst >>> 1 = lst / 2 := by simp [Nat.shiftRight_eq_div_pow]
      rw [if_neg hzero, wrapInt_add, hhalf, ih (lst / 2) (by omega), size_div_two hzero]
      congr 1
      push_cast
      ring

/-- The formula is the one of the Rust tools, in `int` arithmetic. -/
theorem java_calcPackReqBytes_eq (signed : Bool) (first : UInt8) (rest : Bytes) :
    Java.calcPackReqBytes signed (first :: rest) =
      .ok ((Java.wrapInt ((9 * rest.length + rest.length / 7 + first.toNat.size +
        (if first.toNat.size = 8 then 1 else 0) + (if signed then 1 else 0) + 8 : ℕ) : ℤ)).tdiv
          8) := by
  obtain ⟨-, htop⟩ := size_byte first
  have hmsb : first &&& 0x80 = 0x80 ↔ first.toNat.size = 8 := by
    rw [← htop, ← UInt8.toNat_inj, ne_eq, ← UInt8.toNat_inj, UInt8.toNat_and]
    exact forall_byte (P := fun n => n &&& 128 = 128 ↔ ¬ n &&& 128 = 0) (by decide +kernel) first
  have hload : Java.load (first :: rest) 0 = .ok first := by
    rw [Java.load, if_pos (by rw [List.length_cons]; omega)]
    rfl
  have hlen : ((first :: rest).length : ℤ) - 1 = rest.length := by
    rw [List.length_cons]
    omega
  have hdiv : (rest.length : ℤ).tdiv 7 = ((rest.length / 7 : ℕ) : ℤ) := by
    rfl
  unfold Java.calcPackReqBytes
  have hstep : ∀ (p : Prop) [Decidable p] (a : ℤ),
      (if p then Java.wrapInt (Java.wrapInt a + 1) else Java.wrapInt a) =
        Java.wrapInt (a + ((if p then 1 else 0 : ℕ) : ℤ)) := by
    intro p _ a
    split <;> simp [wrapInt_add]
  simp only [hload, bind, Except.bind, pure, Except.pure, hlen, hdiv, java_countBits_eq, hmsb]
  rw [hstep, hstep, wrapInt_add, add_assoc, add_assoc, add_assoc, add_assoc, wrapInt_add]
  push_cast
  simp only [add_assoc]

/-! ## The encoder's loop -/

section Encoder

variable {bytes : Bytes} {m : ℕ} (negative : Option Bool) {n start : ℕ}

/-- Where the bytes are there, the group is the one the Rust encoder takes. -/
theorem java_packGroup_eq {off : ℕ} {index : ℤ}
    (hlow : if off = 0 then 0 ≤ index ∧ index < bytes.length
      else 0 ≤ index + 1 ∧ index + 1 < bytes.length) :
    Java.packGroup bytes off index = .ok (packGroup bytes off index) := by
  have hload : ∀ i : ℤ, 0 ≤ i → i < bytes.length →
      Java.load bytes i = .ok (bytes.getD i.toNat 0) := fun i h₁ h₂ => if_pos ⟨h₁, h₂⟩
  unfold Java.packGroup packGroup byteAt
  by_cases hoff : off = 0
  · rw [if_pos hoff] at hlow
    rw [if_pos hoff, if_pos hoff, hload index hlow.1 hlow.2, if_pos hlow.1]
    rfl
  · rw [if_neg hoff] at hlow
    rw [if_neg hoff, if_neg hoff, hload (index + 1) hlow.1 hlow.2, if_pos (by omega)]
    by_cases hidx : index ≥ 0
    · simp only [bind, Except.bind, if_pos hidx, hload index hidx (by omega)]
      rfl
    · simp only [bind, Except.bind, if_neg hidx]
      rfl

/-- The counters of the loop after `k` rounds. -/
def counters (bytes : Bytes) (k : ℕ) : ℕ × ℤ :=
  (k % 8, (bytes.length : ℤ) - 1 - k + (k / 8 : ℕ))

variable (bytes) in
theorem counters_succ (k : ℕ) :
    (if (counters bytes k).1 + 1 = 8 then 0 else (counters bytes k).1 + 1) =
        (counters bytes (k + 1)).1 ∧
      (if (counters bytes k).1 + 1 = 8 then (counters bytes k).2 + 1
        else (counters bytes k).2) - 1 = (counters bytes (k + 1)).2 := by
  unfold counters
  by_cases hround : k % 8 + 1 = 8
  · rw [if_pos hround, if_pos hround]
    constructor <;> push_cast <;> omega
  · rw [if_neg hround, if_neg hround]
    constructor <;> push_cast <;> omega

/-- Round `k` begins with bit `7 k`, and the byte with this bit is the first one it reads. -/
theorem java_packGroup_counters (k : ℕ) (hk : 7 * k < 8 * bytes.length) :
    Java.packGroup bytes (counters bytes k).1 (counters bytes k).2 =
      .ok (packGroup bytes (counters bytes k).1 (counters bytes k).2) := by
  apply java_packGroup_eq
  unfold counters
  split <;> simp only at * <;> omega

/-- A round that begins behind the last bit reads in front of the array. -/
theorem java_packGroup_beyond (k : ℕ) (hk : 8 * bytes.length ≤ 7 * k) :
    Java.packGroup bytes (counters bytes k).1 (counters bytes k).2 =
      .error .arrayIndexOutOfBounds := by
  have hload : ∀ i : ℤ, i < 0 → Java.load bytes i = .error .arrayIndexOutOfBounds :=
    fun i hi => if_neg (by omega)
  unfold Java.packGroup counters
  by_cases hoff : k % 8 = 0
  · rw [if_pos hoff, hload _ (by simp only; omega)]
    rfl
  · rw [if_neg hoff, hload _ (by simp only; omega)]
    rfl

/-- One round of the loop is one round of the Rust loop. -/
theorem java_packLoop_round (hk : 7 * k < 8 * bytes.length) (hi : i < n)
    (hroom : start + i < dst.length) :
    Java.packLoop negative bytes n start (i + 1) (counters bytes k).1 (counters bytes k).2 dst =
      Java.packLoop negative bytes n start i (counters bytes (k + 1)).1 (counters bytes (k + 1)).2
        (packStep negative bytes n start
          ⟨(counters bytes k).1, (counters bytes k).2, dst⟩ i).dst := by
  have hstore : ∀ b, Java.store dst ((start : ℤ) + i) b = .ok (dst.set (start + i) b) := fun b => by
    rw [Java.store, if_pos (by omega)]
    congr 2
  have hlast : ((i : ℤ) ≠ (n : ℤ) - 1) ↔ i ≠ n - 1 := by omega
  obtain ⟨hoff, hindex⟩ := counters_succ bytes k
  rw [Java.packLoop]
  simp only [java_packGroup_counters k hk, bind, Except.bind, hstore, hlast, hoff, hindex, packStep]

theorem length_packStep (s : PackLoop) (i : ℕ) :
    (packStep negative bytes n start s i).dst.length = s.dst.length := by
  simp [packStep]

/-- **The encoder's loop.**  From round `k` on it does what the Rust loop does, as long as
every round begins within the magnitude. -/
theorem java_packLoop_eq (hki : k + i = n) (hin : 7 * (n - 1) < 8 * bytes.length)
    (hroom : start + n ≤ dst.length) :
    Java.packLoop negative bytes n start i (counters bytes k).1 (counters bytes k).2 dst =
      .ok ((List.range i).reverse.foldl (packStep negative bytes n start)
        ⟨(counters bytes k).1, (counters bytes k).2, dst⟩).dst := by
  induction i generalizing k dst with
  | zero => rfl
  | succ i ih =>
    have hlen : start + n ≤ (packStep negative bytes n start
        ⟨(counters bytes k).1, (counters bytes k).2, dst⟩ i).dst.length := by
      rw [length_packStep]
      exact hroom
    have hnext := ih (show k + 1 + i = n by omega) hlen
    have hstate : packStep negative bytes n start
        ⟨(counters bytes k).1, (counters bytes k).2, dst⟩ i =
          ⟨(counters bytes (k + 1)).1, (counters bytes (k + 1)).2, (packStep negative bytes n start
            ⟨(counters bytes k).1, (counters bytes k).2, dst⟩ i).dst⟩ := by
      simp only [packStep, PackLoop.mk.injEq, and_true]
      exact counters_succ bytes k
    rw [java_packLoop_round negative (by omega) (by omega) (by omega), hnext, List.range_succ,
      List.reverse_append, List.reverse_singleton, List.singleton_append, List.foldl_cons]
    rw [← hstate]

/-- When only the last round begins behind the magnitude, the loop ends with it. -/
theorem java_packLoop_error (hki : k + i = n) (hi : 0 < i) (hin : 7 * (n - 2) < 8 * bytes.length)
    (hout : 8 * bytes.length ≤ 7 * (n - 1)) (hroom : start + n ≤ dst.length) :
    Java.packLoop negative bytes n start i (counters bytes k).1 (counters bytes k).2 dst =
      .error .arrayIndexOutOfBounds := by
  induction i generalizing k dst with
  | zero => omega
  | succ i ih =>
    by_cases hzero : i = 0
    · subst hzero
      rw [Java.packLoop, java_packGroup_beyond k (by omega)]
      rfl
    · rw [java_packLoop_round negative (by omega) (by omega) (by omega)]
      exact ih (by omega) (by omega) (by rw [length_packStep]; exact hroom)

end Encoder

/-- The magnitude ends before the last group begins: the sign bit stands alone in a group. -/
def SignAlone (signed : Bool) (m : ℕ) : Prop := signed = true ∧ m ≠ 0 ∧ m.size % 56 = 0

/-- The number of groups is one an `int` computation can arrive at. -/
def Countable (signed : Bool) (m : ℕ) : Prop :=
  m.size + (if signed then 1 else 0) ≤ 7 * (2 ^ 28 - 1)

theorem countable_iff (h : Shortest signed n m) : Countable signed m ↔ n < 2 ^ 28 := by
  obtain ⟨hone, hup, hlow⟩ := shortest_size h
  unfold Countable
  omega

/-- The formula gives the least number of groups, unless it does not fit an `int` before the
division. -/
theorem java_calcPackReqBytes_shortest {bytes : Bytes} (h : IsMagnitude bytes m)
    (hn : Shortest signed n m) :
    ∃ c, Java.calcPackReqBytes signed bytes = .ok c ∧ (c = n ↔ n < 2 ^ 28) := by
  have hrust : calcPackReqBytesBytes signed bytes = n :=
    (calcPackReqBytesBytes_shortest h signed).unique hn
  obtain ⟨first, rest, rfl⟩ := List.exists_cons_of_length_pos h.pos
  rw [calcPackReqBytesBytes_eq] at hrust
  rw [java_calcPackReqBytes_eq]
  set total := 9 * rest.length + rest.length / 7 + first.toNat.size +
    (if first.toNat.size = 8 then 1 else 0) + (if signed then 1 else 0) + 8
  refine ⟨_, rfl, ?_⟩
  by_cases hsmall : n < 2 ^ 28
  · have htotal : (total : ℤ) < 2 ^ 31 := by omega
    rw [wrapInt_of_lt (by omega) htotal, Int.tdiv_eq_ediv_of_nonneg (by omega)]
    exact iff_of_true (by omega) hsmall
  · have hlt := wrapInt_lt total
    refine iff_of_false (fun heq => ?_) hsmall
    by_cases hneg : Java.wrapInt total < 0
    · have hmul := Int.mul_tdiv_add_tmod (Java.wrapInt total) 8
      have hrem := Int.lt_tmod_of_pos (Java.wrapInt total) (show (0 : ℤ) < 8 by norm_num)
      omega
    · rw [Int.tdiv_eq_ediv_of_nonneg (by omega)] at heq
      omega

/-- The last group begins behind the magnitude. -/
theorem signAlone_iff (h : Shortest signed n m) (hm : m ≠ 0) :
    SignAlone signed m ↔ 8 * ((m.size + 7) / 8) ≤ 7 * (n - 1) := by
  obtain ⟨hone, hup, hlow⟩ := shortest_size h
  have hpos : 0 < m.size := Nat.size_pos.mpr (Nat.pos_of_ne_zero hm)
  unfold SignAlone
  cases signed with
  | false =>
    simp only [Bool.false_eq_true, if_false, false_and, false_iff] at hup hlow ⊢
    omega
  | true =>
    simp only [if_true, true_and, ne_eq, hm, not_false_eq_true] at hup hlow ⊢
    omega

/-! ## The encoder -/

theorem java_packValue_magnitude (hv : signed = false → 0 ≤ v) (dst : Bytes) (start : ℕ) :
    Java.packValue signed v dst start =
      Java.packMagnitude (if signed then some (decide (v < 0)) else none)
        (javaMagnitude (packMagnitude v)) dst start := by
  have hvalue : (if signed = true ∧ v < 0 then -v - 1 else v) = (packMagnitude v : ℤ) := by
    unfold packMagnitude
    by_cases hneg : v < 0
    · have hsigned : signed = true := by
        by_contra hfalse
        have := hv (by simpa using hfalse)
        omega
      rw [if_pos ⟨hsigned, hneg⟩, if_pos hneg]
      omega
    · rw [if_neg (fun h => hneg h.2), if_neg hneg]
      omega
  unfold Java.packValue
  rw [if_neg (by rintro ⟨hs, hneg⟩; have := hv hs; omega)]
  simp only [hvalue]
  rfl

section Encoded

variable {signed : Bool} {v : ℤ} {n : ℕ}

/-- The sign argument stands for the sign of the value. -/
theorem negative_iff (hv : signed = false → 0 ≤ v) :
    decide ((if signed then some (decide (v < 0)) else none) = some true) = decide (v < 0) := by
  cases signed with
  | true => simp
  | false => simpa using hv rfl

theorem shortest_zero (h : Shortest signed n 0) : n = 1 := by
  obtain ⟨hone, -, hlow⟩ := shortest_size h
  rw [Nat.size_zero] at hlow
  have hs : (if signed then 1 else 0) ≤ 1 := by split <;> simp
  omega

/-- A magnitude is written by the loop, from its last byte, in as many rounds as `int` arithmetic
counts. -/
theorem java_packValue_loop (hv : signed = false → 0 ≤ v)
    (hn : Shortest signed n (packMagnitude v)) (hm : packMagnitude v ≠ 0) (dst : Bytes) :
    ∃ c : ℤ, (c = n ↔ n < 2 ^ 28) ∧ Java.packValue signed v dst 0 =
      (Java.packLoop (if signed then some (decide (v < 0)) else none)
        (javaMagnitude (packMagnitude v)) c 0 c.toNat
        (counters (javaMagnitude (packMagnitude v)) 0).1
        (counters (javaMagnitude (packMagnitude v)) 0).2 dst).map fun dst => (c, dst) := by
  obtain ⟨hmag, -⟩ := javaMagnitude_isMagnitude hm
  obtain ⟨c, hcalc, hc⟩ := java_calcPackReqBytes_shortest hmag hn
  have hne : javaMagnitude (packMagnitude v) ≠ [] := List.ne_nil_of_length_pos hmag.pos
  have hsome : (if signed then some (decide (v < 0)) else none).isSome = signed := by
    cases signed <;> rfl
  refine ⟨c, hc, ?_⟩
  rw [java_packValue_magnitude hv, Java.packMagnitude, if_neg hne, hsome, hcalc]
  simp [counters, bind, Except.bind, Except.map, pure, Except.pure]

/-- **What the Java encoder writes** unless the sign bit stands alone or the length does not fit
an `int`. -/
theorem java_packValue_eq (hv : signed = false → 0 ≤ v) (hn : Shortest signed n (packMagnitude v))
    (hcount : n < 2 ^ 28) (halone : ¬ SignAlone signed (packMagnitude v)) (hroom : n ≤ dst.length) :
    Java.packValue signed v dst 0 =
      .ok ((n : ℤ), packedBytes (decide (v < 0)) n (packMagnitude v) ++ dst.drop n) := by
  have hneg := negative_iff hv
  by_cases hzero : packMagnitude v = 0
  · -- nothing is left of the magnitude: one byte, zero or the sign
    rw [hzero] at hn
    obtain rfl := shortest_zero hn
    obtain ⟨b, rest, rfl⟩ := List.exists_cons_of_length_pos hroom
    have hstore : ∀ x : UInt8, Java.store (b :: rest) ((0 : ℕ) : ℤ) x = .ok (x :: rest) := by
      intro x
      rw [Java.store, if_pos (by rw [List.length_cons]; omega)]
      rfl
    rw [java_packValue_magnitude hv, hzero, javaMagnitude_zero]
    generalize (if signed then some (decide (v < 0)) else none : Option Bool) = negative at hneg ⊢
    rw [← hneg]
    simp only [Java.packMagnitude, if_true, hstore, bind, Except.bind, pure, Except.pure]
    by_cases hsign : negative = some true <;> simp [hsign, packedBytes, packedByte, group]
  · obtain ⟨hmag, hlen⟩ := javaMagnitude_isMagnitude hzero
    obtain ⟨c, hc, hpack⟩ := java_packValue_loop hv hn hzero dst
    obtain rfl := hc.mpr hcount
    have hin : 7 * (n - 1) < 8 * (javaMagnitude (packMagnitude v)).length := by
      rw [signAlone_iff hn hzero] at halone
      omega
    have hfree : (if signed then some (decide (v < 0)) else none) = some true →
        group n (packMagnitude v) 0 < 64 := by
      cases signed with
      | true => exact fun _ => hn.1.group_zero_lt
      | false => simp
    have hstart : ∀ bytes, counters bytes 0 = (0, (bytes.length : ℤ) - 1) := by simp [counters]
    rw [hpack, Int.toNat_natCast, java_packLoop_eq _ (Nat.zero_add n) hin (by omega), hstart,
      packLoop_eq hmag _ n 0 dst hfree (by omega), hneg]
    simp [Except.map]

/-- The Java encoder fails where the sign bit stands alone. -/
theorem java_packValue_signAlone (hv : signed = false → 0 ≤ v)
    (hn : Shortest signed n (packMagnitude v)) (hcount : n < 2 ^ 28)
    (halone : SignAlone signed (packMagnitude v)) (hroom : n ≤ dst.length) :
    Java.packValue signed v dst 0 = .error .arrayIndexOutOfBounds := by
  have hzero : packMagnitude v ≠ 0 := halone.2.1
  obtain ⟨hmag, hlen⟩ := javaMagnitude_isMagnitude hzero
  obtain ⟨c, hc, hpack⟩ := java_packValue_loop hv hn hzero dst
  obtain rfl := hc.mpr hcount
  have hout := (signAlone_iff hn hzero).mp halone
  rw [← hlen] at hout
  obtain ⟨hone, hup, hlow⟩ := shortest_size hn
  have hs : (if signed then 1 else 0) ≤ 1 := by split <;> simp
  have hpos := hmag.pos
  rw [hpack, Int.toNat_natCast,
    java_packLoop_error _ (Nat.zero_add n) hone (by omega) hout (by omega)]
  rfl

/-- The Java encoder returns another length where its own does not fit an `int`. -/
theorem java_packValue_overflow (hv : signed = false → 0 ≤ v)
    (hn : Shortest signed n (packMagnitude v)) (hcount : ¬ n < 2 ^ 28) {written : Bytes} :
    Java.packValue signed v dst 0 ≠ .ok ((n : ℤ), written) := by
  have hzero : packMagnitude v ≠ 0 := by
    intro hzero
    rw [hzero] at hn
    exact hcount (by rw [shortest_zero hn]; norm_num)
  obtain ⟨c, hc, hpack⟩ := java_packValue_loop hv hn hzero dst
  rw [hpack]
  intro hok
  unfold Except.map at hok
  split at hok
  · cases hok
  · rw [Except.ok.injEq, Prod.mk.injEq] at hok
    exact hcount (hc.mp hok.1)

end Encoded

/-! ## The decoder -/

/-- The groups of an encoding read as one number, the sign bit with them. -/
def rawValue (sign : Bool) (n m : ℕ) : ℕ := m + if sign then 64 * 128 ^ (n - 1) else 0

/-- The number the decoder puts together: the sign bit is left in it when the groups fill whole
bytes. -/
def javaNumber (sign : Bool) (n m : ℕ) : ℕ := if n % 8 = 0 then rawValue sign n m else m

/-- The array of the decoder with its last `c` bytes written. -/
def partialBytes (req c x : ℕ) : Bytes :=
  (List.range req).map fun i =>
    if req - 1 - i < c then UInt8.ofNat (x / 256 ^ (req - 1 - i) % 256) else 0

theorem partialBytes_zero (req x : ℕ) : partialBytes req 0 x = List.replicate req 0 := by
  simp [partialBytes]

theorem partialBytes_set {req : ℕ} (hc : c < req) :
    (partialBytes req c x).set (req - 1 - c) (UInt8.ofNat (x / 256 ^ c % 256)) =
      partialBytes req (c + 1) x := by
  apply List.ext_getElem (by simp [partialBytes])
  intro i h₁ h₂
  have hi : i < req := by simpa [partialBytes] using h₂
  rw [List.getElem_set]
  by_cases hplace : req - 1 - c = i
  · subst hplace
    simp only [if_true, partialBytes, List.getElem_map, List.getElem_range,
      show req - 1 - (req - 1 - c) = c by omega, Nat.lt_succ_self]
  · have hsame : req - 1 - i < c ↔ req - 1 - i < c + 1 := by omega
    simp only [if_neg hplace, partialBytes, List.getElem_map, List.getElem_range, hsame]

/-- A byte that is not written is right when it is zero. -/
theorem partialBytes_eq_digitsBe {req : ℕ} (hc : ∀ j, c ≤ j → j < req → x / 256 ^ j % 256 = 0) :
    partialBytes req c x = digitsBe req x := by
  unfold partialBytes digitsBe
  apply List.map_congr_left
  intro i hi
  rw [List.mem_range] at hi
  by_cases hlt : req - 1 - i < c
  · rw [if_pos hlt]
  · rw [if_neg hlt, hc _ (by omega) (by omega)]
    rfl

theorem ofNat_mod_256 (x : ℕ) : UInt8.ofNat (x % 256) = UInt8.ofNat x := by
  apply UInt8.toNat_inj.mp
  exact Nat.mod_mod x 256

/-- Eight bits from two neighbouring groups. -/
theorem shift_or_mod_256 (y r : ℕ) (hr : r < 7) :
    ((y % 128) >>> r ||| (y / 128 % 128) <<< (7 - r)) % 256 = y / 2 ^ r % 256 := by
  have hlow : (y % 128) >>> r < 2 ^ (7 - r) := by
    rw [Nat.shiftRight_eq_div_pow]
    apply Nat.div_lt_of_lt_mul
    rw [← pow_add, show r + (7 - r) = 7 by omega]
    exact Nat.mod_lt _ (by norm_num)
  rw [Nat.or_comm, ← Nat.shiftLeft_add_eq_or_of_lt hlow, Nat.shiftRight_eq_div_pow,
    Nat.shiftLeft_eq]
  interval_cases r <;> omega

/-- Powers of 256 and of 128 by their bits. -/
theorem pow_256_eq {a b r : ℕ} (h : 8 * a = 7 * b + r) : (256 : ℕ) ^ a = 128 ^ b * 2 ^ r := by
  rw [show (128 : ℕ) = 2 ^ 7 from rfl, show (256 : ℕ) = 2 ^ 8 from rfl, ← pow_mul, ← pow_mul,
    ← pow_add, h]

section Decoder

variable {sign : Bool} {n m : ℕ}

/-- The sign bit has room in the first group. -/
theorem free_of_fits (hfit : Fits signed n m) (hsign : sign = true → signed = true)
    (hs : sign = true) : group n m 0 < 64 := by
  rw [hsign hs] at hfit
  exact hfit.group_zero_lt

/-- The groups of an encoding are the base 128 digits of its raw value. -/
theorem packedByte_raw {j : ℕ} (hj : j < n) (hfree : sign = true → group n m 0 < 64) :
    packedByte sign n m j % 128 = rawValue sign n m / 128 ^ (n - 1 - j) % 128 := by
  unfold rawValue
  by_cases hsign : sign = true
  · rw [if_pos hsign]
    by_cases hzero : j = 0
    · subst hzero
      have hlow := hfree hsign
      have hbyte : packedByte sign n m 0 = group n m 0 + (if 0 + 1 < n then 128 else 0) + 64 := by
        simp [packedByte, hsign]
      rw [hbyte, Nat.sub_zero, Nat.add_mul_div_right _ _ (by positivity)]
      unfold group at hlow ⊢
      rw [Nat.sub_zero] at hlow ⊢
      split <;> omega
    · -- the sign bit stands above the digit
      have hpow : 64 * 128 ^ (n - 1) = 64 * 128 ^ (j - 1) * 128 * 128 ^ (n - 1 - j) := by
        rw [mul_assoc, mul_assoc, ← pow_succ', ← pow_add]
        congr 2
        omega
      rw [(packedByte_mod sign n m j).1 fun h => hzero h.2, group, hpow,
        Nat.add_mul_div_right _ _ (by positivity), Nat.add_mul_mod_self_right]
  · rw [if_neg hsign, Nat.add_zero, (packedByte_mod sign n m j).1 fun h => hsign h.1]
    rfl

theorem rawValue_lt (hfit : m < 128 ^ n) (hn : 1 ≤ n) (hfree : sign = true → group n m 0 < 64) :
    rawValue sign n m < 128 ^ n := by
  unfold rawValue
  by_cases hsign : sign = true
  · have hlow := hfree hsign
    have hpow : (128 : ℕ) ^ n = 128 ^ (n - 1) * 128 := by rw [← pow_succ, Nat.sub_add_cancel hn]
    have htop : m / 128 ^ (n - 1) < 128 := Nat.div_lt_of_lt_mul (by rwa [← hpow])
    rw [group, Nat.sub_zero, Nat.mod_eq_of_lt htop, Nat.div_lt_iff_lt_mul (by positivity)] at hlow
    rw [if_pos hsign, hpow]
    omega
  · rw [if_neg hsign]
    omega

/-- Below the sign bit the raw value has the digits of the magnitude. -/
theorem rawValue_digit (hc : 8 * c + 8 ≤ 7 * n - 1) :
    rawValue sign n m / 256 ^ c % 256 = m / 256 ^ c % 256 := by
  unfold rawValue
  split
  · have hpow : (64 * 128 ^ (n - 1) : ℕ) = 2 ^ (7 * n - 1 - (8 * c + 8)) * 256 * 256 ^ c := by
      rw [show (64 : ℕ) = 2 ^ 6 from rfl, show (128 : ℕ) = 2 ^ 7 from rfl,
        show (256 : ℕ) = 2 ^ 8 from rfl, ← pow_mul, ← pow_mul, ← pow_add, ← pow_add, ← pow_add]
      congr 1
      omega
    rw [hpow, Nat.add_mul_div_right _ _ (by positivity), Nat.add_mul_mod_self_right]
  · rw [Nat.add_zero]

/-- Two neighbouring groups of the raw value give the byte they overlap. -/
theorem rawValue_byte (x g : ℕ) (hg : g % 8 < 7) :
    ((x / 128 ^ g % 128) >>> (g % 8) ||| (x / 128 ^ (g + 1) % 128) <<< (7 - g % 8)) % 256 =
      x / 256 ^ (g - g / 8) % 256 := by
  have hpow : (256 : ℕ) ^ (g - g / 8) = 128 ^ g * 2 ^ (g % 8) := pow_256_eq (by omega)
  rw [hpow, ← Nat.div_div_eq_div_mul, pow_succ, ← Nat.div_div_eq_div_mul]
  exact shift_or_mod_256 (x / 128 ^ g) (g % 8) hg

/-- What the masks leave of a byte of an encoding. -/
theorem mask_packedBytes {j : ℕ} (hj : j < n) (hfree : sign = true → group n m 0 < 64) :
    (0x7f &&& (packedBytes sign n m).getD j 0).toNat =
      rawValue sign n m / 128 ^ (n - 1 - j) % 128 := by
  have hbyte := getD_packedBytes_toNat [] hj hfree
  rw [List.append_nil] at hbyte
  rw [UInt8.and_comm, and_0x7f_toNat, hbyte, packedByte_raw hj hfree]

/-- The first byte without the sign bit. -/
theorem cut_packedBytes (hfit : Fits signed n m) (hsign : sign = true → signed = true) :
    ((if signed then 0x3f else 0x7f : UInt8) &&& (packedBytes sign n m).getD 0 0).toNat =
      m / 128 ^ (n - 1) := by
  have hbyte := getD_packedBytes_toNat [] (show 0 < n from hfit.1) (free_of_fits hfit hsign)
  rw [List.append_nil] at hbyte
  have hpow : (128 : ℕ) ^ n = 128 ^ (n - 1) * 128 := by rw [← pow_succ, Nat.sub_add_cancel hfit.1]
  have htop : m / 128 ^ (n - 1) < 128 := Nat.div_lt_of_lt_mul (by rw [← hpow]; exact hfit.lt_pow)
  have hgroup : group n m 0 = m / 128 ^ (n - 1) := by
    rw [group, Nat.sub_zero, Nat.mod_eq_of_lt htop]
  obtain ⟨hplain, hfirst⟩ := packedByte_mod sign n m 0
  rw [UInt8.and_comm, ← hgroup]
  cases signed with
  | true => rw [if_pos rfl, and_0x3f_toNat, hbyte, hfirst hfit.group_zero_lt]
  | false =>
    rw [if_neg Bool.false_ne_true, and_0x7f_toNat, hbyte]
    exact hplain fun h => Bool.false_ne_true (hsign h.1)

/-- **The decoder's loop.**  After `g` groups it has written the last `g - g / 8` bytes. -/
theorem java_unpackLoop_eq (hfit : Fits signed n m) (hsign : sign = true → signed = true)
    {g rounds : ℕ} (hg : g + rounds = n) :
    Java.unpackLoop (if signed then 0x3f else 0x7f) (packedBytes sign n m) 0 rounds
        ((g % 8 : ℕ) - 1) ((7 * n / 8 : ℕ) - (g - g / 8 : ℕ))
        (partialBytes (7 * n / 8 + 1) (g - g / 8) (javaNumber sign n m)) =
      digitsBe (7 * n / 8 + 1) (javaNumber sign n m) := by
  have hfree : sign = true → group n m 0 < 64 := free_of_fits hfit hsign
  induction rounds generalizing g with
  | zero =>
    apply partialBytes_eq_digitsBe
    intro j hlow hhigh
    have hgn : g = n := by omega
    rw [hgn] at hlow
    -- nothing is left to write unless the groups fill whole bytes, and then the top byte is zero
    have hmod : n % 8 = 0 := by omega
    have hj : 8 * j = 7 * n := by omega
    have hlt : javaNumber sign n m < 256 ^ j := by
      rw [javaNumber, if_pos hmod]
      rw [pow_256_eq (r := 0) hj, pow_zero, mul_one]
      exact rawValue_lt hfit.lt_pow hfit.1 hfree
    rw [Nat.div_eq_of_lt hlt]
  | succ a ih =>
    have hnext := ih (g := g + 1) (by omega)
    rw [Java.unpackLoop, if_neg (by omega)]
    by_cases hskip : g % 8 = 7
    · rw [if_pos (by omega)]
      rw [show (g + 1) % 8 = 0 by omega, show g + 1 - (g + 1) / 8 = g - g / 8 by omega] at hnext
      exact hnext
    · have hoff : ((g % 8 : ℕ) : ℤ) - 1 + 1 = (g % 8 : ℕ) := by omega
      rw [if_neg (by omega)]
      simp only [hoff, Int.toNat_natCast, Nat.zero_add]
      have hshift : (7 - ((g % 8 : ℕ) : ℤ)).toNat = 7 - g % 8 := by omega
      have hindex : (((7 * n / 8 : ℕ) : ℤ) - (g - g / 8 : ℕ)).toNat =
          7 * n / 8 + 1 - 1 - (g - g / 8) := by omega
      have hstep : ((7 * n / 8 : ℕ) : ℤ) - (g - g / 8 : ℕ) - 1 =
          (7 * n / 8 : ℕ) - (g + 1 - (g + 1) / 8 : ℕ) := by omega
      have hnextOff : ((g % 8 : ℕ) : ℤ) = ((g + 1) % 8 : ℕ) - 1 := by omega
      have hcount : g - g / 8 + 1 = g + 1 - (g + 1) / 8 := by omega
      rw [hshift, hindex, hstep]
      -- it is enough that the round writes the right byte
      have hwrites : ∀ b, b = UInt8.ofNat (javaNumber sign n m / 256 ^ (g - g / 8) % 256) →
          Java.unpackLoop (if signed then 0x3f else 0x7f) (packedBytes sign n m) 0 a (g % 8 : ℕ)
            ((7 * n / 8 : ℕ) - (g + 1 - (g + 1) / 8 : ℕ))
            ((partialBytes (7 * n / 8 + 1) (g - g / 8) (javaNumber sign n m)).set
              (7 * n / 8 + 1 - 1 - (g - g / 8)) b) =
            digitsBe (7 * n / 8 + 1) (javaNumber sign n m) := by
        intro b hb
        rw [hb, partialBytes_set (by omega), hnextOff, hcount]
        exact hnext
      apply hwrites
      by_cases ha : a > 0
      · have hraw := rawValue_byte (rawValue sign n m) g (by omega)
        have hdigit : rawValue sign n m / 256 ^ (g - g / 8) % 256 =
            javaNumber sign n m / 256 ^ (g - g / 8) % 256 := by
          unfold javaNumber
          by_cases hmod : n % 8 = 0
          · rw [if_pos hmod]
          · rw [if_neg hmod]
            exact rawValue_digit (by omega)
        rw [if_pos ha, if_pos (by omega), mask_packedBytes (by omega) hfree,
          mask_packedBytes (by omega) hfree, show n - 1 - a = g by omega,
          show n - 1 - (a - 1) = g + 1 by omega, ← hdigit, ← hraw, ofNat_mod_256]
      · obtain rfl : a = 0 := by omega
        have hmod : ¬ n % 8 = 0 := by omega
        have hpow : (256 : ℕ) ^ (g - g / 8) = 128 ^ (n - 1) * 2 ^ (g % 8) :=
          pow_256_eq (by omega)
        rw [if_neg ha, if_neg (by omega), cut_packedBytes hfit hsign, Nat.shiftRight_eq_div_pow,
          Nat.div_div_eq_div_mul, ← hpow, javaNumber, if_neg hmod, ofNat_mod_256]

/-- The bytes of a number whose top bit is clear stand for it. -/
theorem ofByteArray_digitsBe (hx : x < 128 * 256 ^ k) :
    Java.ofByteArray (digitsBe (k + 1) x) = x := by
  have hvalue : (digitsBe (k + 1) x).foldl (fun acc b => acc * 256 + b.toNat) 0 = x := by
    have hdigit : ∀ i, (UInt8.ofNat (x / 256 ^ (k + 1 - 1 - i) % 256)).toNat =
        x / 256 ^ (k + 1 - 1 - i) % 256 := by
      intro i
      simp
    unfold digitsBe
    rw [List.foldl_map]
    simp only [hdigit]
    exact foldl_digits_eq 256 x (k + 1) (by omega)
  have hhead : ¬ 128 ≤ ((digitsBe (k + 1) x).headD 0).toNat := by
    have htop : x / 256 ^ k < 128 := Nat.div_lt_of_lt_mul (by rwa [mul_comm] at hx)
    rw [digitsBe_succ, List.headD_cons, UInt8.toNat_ofNat', Nat.mod_eq_of_lt (by omega),
      Nat.mod_eq_of_lt (by omega)]
    omega
  unfold Java.ofByteArray
  rw [if_neg hhead, hvalue]

theorem usedBytes_succ (data : Bytes) (used : ℕ) :
    usedBytes data (used + 1) = (usedBytes data used).map (· + 1) := by
  induction data generalizing used with
  | nil => rfl
  | cons b data ih =>
    rw [usedBytes, usedBytes]
    split
    · rfl
    · exact ih (used + 1)

/-- **What the Java decoder reads.** -/
theorem java_unpackValue_packedBytes (hfit : Fits signed n m) (hsign : sign = true → signed = true)
    (hcount : n < 2 ^ 28) :
    Java.unpackValue signed (packedBytes sign n m) 0 =
      .ok (signedValue sign (javaNumber sign n m), n) := by
  have hfree : sign = true → group n m 0 < 64 := free_of_fits hfit hsign
  have hn := hfit.1
  obtain ⟨k, hk⟩ : ∃ k, usedBytes (packedBytes sign n m) 0 = .ok k ∧ k + 1 = n := by
    have hused := usedBytes_packedBytes hn hfree []
    rw [List.append_nil, usedBytes_succ] at hused
    cases h0 : usedBytes (packedBytes sign n m) 0 with
    | error e => simp [h0, Except.map] at hused
    | ok k => exact ⟨k, rfl, by simpa [h0, Except.map] using hused⟩
  have hreq : (Java.wrapInt (((k : ℤ) + 1) * 7)).tdiv 8 = (7 * n / 8 : ℕ) := by
    rw [wrapInt_of_lt (by omega) (by omega), Int.tdiv_eq_ediv_of_nonneg (by omega)]
    omega
  have hloop := java_unpackLoop_eq hfit hsign (show 0 + n = n by omega)
  have hlt : javaNumber sign n m < 128 * 256 ^ (7 * n / 8) := by
    have hraw : javaNumber sign n m < 128 ^ n := by
      unfold javaNumber
      split
      · exact rawValue_lt hfit.lt_pow hn hfree
      · exact hfit.lt_pow
    refine lt_of_lt_of_le hraw ?_
    rw [show (128 : ℕ) = 2 ^ 7 from rfl, show (256 : ℕ) = 2 ^ 8 from rfl, ← pow_mul, ← pow_mul,
      ← pow_add]
    exact Nat.pow_le_pow_right (by norm_num) (by omega)
  have hbit : (signed = true ∧ (packedBytes sign n m).getD 0 0 &&& 0x40 ≠ 0) ↔ sign = true := by
    have hbyte := getD_packedBytes_toNat [] (show 0 < n from hn) hfree
    rw [List.append_nil] at hbyte
    rw [ne_eq, and_0x40_eq_zero_iff, hbyte]
    constructor
    · rintro ⟨hs, hset⟩
      rw [hs] at hfit
      rw [packedByte_sign hfit.group_zero_lt] at hset
      simpa using hset
    · intro hs
      rw [packedByte_sign (hfree hs)]
      exact ⟨hsign hs, by simp [hs]⟩
  unfold Java.unpackValue
  rw [List.drop_zero, hk.1]
  simp only [hreq, hbit]
  rw [if_neg (by omega), if_neg (by omega), hk.2]
  have hzero : (((7 * n / 8 : ℕ) : ℤ) + 1).toNat = 7 * n / 8 + 1 := by omega
  have hfirst : ((7 * n / 8 : ℕ) : ℤ) + 1 - 1 = (7 * n / 8 : ℕ) - (0 - 0 / 8 : ℕ) := by simp
  rw [hzero, hfirst, ← partialBytes_zero _ (javaNumber sign n m)]
  have hstart : ((0 % 8 : ℕ) : ℤ) - 1 = -1 := by simp
  rw [hstart] at hloop
  rw [hloop, ofByteArray_digitsBe hlt]
  rfl

end Decoder

/-! ## Where the tools agree -/

/-- The Java encoder completes and writes the bytes of the Rust encoder at the start of any array
that has room for them, and the Java decoder reads the value back. -/
def JavaAgrees (signed : Bool) (v : ℤ) : Prop :=
  ∃ e, packValue signed v = .ok e ∧
    (∀ dst, e.length ≤ dst.length →
      Java.packValue signed v dst 0 = .ok ((e.length : ℤ), e ++ dst.drop e.length)) ∧
    ∃ used, Java.unpackValue signed e 0 = .ok (v, used)

/-- The encoding has fewer than 2^28 bytes; in the signed mode the magnitude is zero or its bit
length is not a multiple of 56, and for a negative value not one of the seven numbers below a
multiple of 56. -/
def JavaHandles (signed : Bool) (v : ℤ) : Prop :=
  (packMagnitude v).size + (if signed then 1 else 0) ≤ 7 * (2 ^ 28 - 1) ∧
    (signed = true → packMagnitude v = 0 ∨
      ((packMagnitude v).size % 56 ≠ 0 ∧ (v < 0 → (packMagnitude v).size % 56 ≤ 48)))

/-- A negative value is read back unless its groups fill whole bytes. -/
theorem signedValue_javaNumber :
    signedValue (decide (v < 0)) (javaNumber (decide (v < 0)) n (packMagnitude v)) = v ↔
      (v < 0 → n % 8 ≠ 0) := by
  have hvalue := signedValue_packMagnitude v
  unfold javaNumber rawValue
  by_cases hneg : v < 0
  · have hpos : 0 < 64 * 128 ^ (n - 1) := by positivity
    simp only [hneg, decide_true, if_true, forall_const, signedValue] at hvalue ⊢
    by_cases hmod : n % 8 = 0
    · rw [if_pos hmod]
      omega
    · rw [if_neg hmod]
      exact iff_of_true hvalue hmod
  · simp only [hneg, decide_false, Bool.false_eq_true, if_false, Nat.add_zero, ite_self,
      false_imp_iff, iff_true] at hvalue ⊢
    exact hvalue

theorem javaHandles_iff (hv : signed = false → 0 ≤ v) (hn : Shortest signed n (packMagnitude v)) :
    JavaHandles signed v ↔
      n < 2 ^ 28 ∧ ¬ SignAlone signed (packMagnitude v) ∧ (v < 0 → n % 8 ≠ 0) := by
  have hsize : (packMagnitude v).size = 0 ↔ packMagnitude v = 0 := Nat.size_eq_zero
  obtain ⟨hone, hup, hlow⟩ := shortest_size hn
  rw [← countable_iff hn]
  unfold JavaHandles SignAlone Countable
  cases signed with
  | false =>
    have hpos := hv rfl
    simp only [Bool.false_eq_true, if_false, false_imp_iff, false_and, not_false_eq_true,
      and_true, show ¬ v < 0 by omega]
  | true =>
    simp only [if_true, true_imp_iff, true_and, ne_eq] at hup hlow ⊢
    apply and_congr_right
    intro _
    omega

/-- **Where the Java and the Rust tools agree.**
SOURCE: UartbusTools.java:133-276, 290-359; tools.rs:135-315 -/
theorem java_agrees_iff (signed : Bool) (v : ℤ) (hv : signed = false → 0 ≤ v) :
    JavaAgrees signed v ↔ JavaHandles signed v := by
  obtain ⟨n, hn, hpack⟩ := packValue_eq signed v hv
  have hsign : decide (v < 0) = true → signed = true := by
    intro hneg
    by_contra hs
    have := hv (by simpa using hs)
    have := of_decide_eq_true hneg
    omega
  rw [javaHandles_iff hv hn]
  constructor
  · rintro ⟨e, he, hwrites, used, hreads⟩
    obtain rfl := Except.ok.inj (hpack.symm.trans he)
    rw [packedBytes_length] at hwrites
    have hroom := hwrites (List.replicate n 0) (by simp)
    have hcount : n < 2 ^ 28 := by
      by_contra hbig
      exact java_packValue_overflow hv hn hbig hroom
    refine ⟨hcount, fun halone => ?_, ?_⟩
    · rw [java_packValue_signAlone hv hn hcount halone (by simp)] at hroom
      cases hroom
    · rw [java_unpackValue_packedBytes hn.1 hsign hcount, Except.ok.injEq, Prod.mk.injEq] at hreads
      exact signedValue_javaNumber.mp hreads.1
  · rintro ⟨hcount, halone, hmod⟩
    refine ⟨_, hpack, fun dst hroom => ?_, n, ?_⟩
    · rw [packedBytes_length] at hroom ⊢
      exact java_packValue_eq hv hn hcount halone hroom
    · rw [java_unpackValue_packedBytes hn.1 hsign hcount, signedValue_javaNumber.mpr hmod]

/-- A negative number of one byte. -/
theorem java_agrees_minus_three : JavaHandles true (-3) ∧ JavaAgrees true (-3) := by
  have hmagnitude : packMagnitude (-3) = 2 ^ 1 := by norm_num [packMagnitude]
  have hsize : (packMagnitude (-3)).size = 2 := by rw [hmagnitude, Nat.size_pow]
  have hhandles : JavaHandles true (-3) := ⟨by rw [hsize]; norm_num, fun _ => .inr (by omega)⟩
  exact ⟨hhandles, (java_agrees_iff true (-3) (by simp)).mpr hhandles⟩

/-- The eight bytes of 2^55 hold 56 bits, so its sign takes a ninth group that has no byte of the
magnitude to be read from: the Java encoder leaves its array. -/
theorem java_not_agrees_two_pow_55 : ¬ JavaAgrees true (2 ^ 55) := by
  have hv : true = false → (0 : ℤ) ≤ 2 ^ 55 := by simp
  have hmagnitude : packMagnitude (2 ^ 55) = 2 ^ 55 := by norm_num [packMagnitude]
  have hsize : (packMagnitude (2 ^ 55)).size = 56 := by rw [hmagnitude, Nat.size_pow]
  obtain ⟨n, hn, hpack⟩ := packValue_eq true (2 ^ 55) hv
  have hcount : n < 2 ^ 28 := by
    rw [← countable_iff hn, Countable, hsize]
    norm_num
  have halone : SignAlone true (packMagnitude (2 ^ 55)) := by
    refine ⟨rfl, ?_, by rw [hsize]⟩
    rw [hmagnitude]
    norm_num
  rintro ⟨e, he, hwrites, -⟩
  obtain rfl := Except.ok.inj (hpack.symm.trans he)
  have hroom := hwrites (List.replicate n 0) (by simp)
  rw [java_packValue_signAlone hv hn hcount halone (by simp)] at hroom
  cases hroom

end Uartbus.Analysis
