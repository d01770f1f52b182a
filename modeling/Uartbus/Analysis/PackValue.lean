import Uartbus.Model.Tools
import Uartbus.Interface.VariableLength
import Mathlib.Data.Nat.Size

/-!
# What `pack_value` writes and `unpack_value` reads

The encoder never computes a seven bit group from the number itself: it walks the
big-endian bytes of the magnitude from the end with a sliding `offset` that returns to zero
every eight groups, and it gets the number of groups from a closed formula on the length of
the magnitude and the bit length of its first byte.

* `packGroup_eq`: after `k` rounds the loop's two counters point at bits `7k .. 7k+6`;
* `calcPackReqBytesBytes_shortest`: the formula is the least number of groups that hold the
  magnitude (and the sign bit);
* `packValueMagnitude_eq` and `packValue_eq`: the bytes written are `packedBytes`;
* `unpackValue_packedBytes`: the decoder reads `packedBytes` back at any offset, with any
  bytes around it.
-/

set_option autoImplicit false

namespace Uartbus.Analysis

open Lib Interface Model

variable {bytes data : Bytes} {signed : Bool} {j m n start used : ℕ}

/-! ## The magnitude bytes -/

/-- The bytes are the big-endian base 256 digits of `m`, without a leading zero unless `m`
is zero. -/
structure IsMagnitude (bytes : Bytes) (m : ℕ) : Prop where
  pos : 0 < bytes.length
  digit : ∀ j < bytes.length, byteAt bytes ((bytes.length : ℤ) - 1 - j) = m / 256 ^ j % 256
  lt : m < 256 ^ bytes.length
  lead : 256 ^ (bytes.length - 1) ≤ m ∨ (m = 0 ∧ bytes.length = 1)

/-- `to_bytes_be` gives the bytes of the magnitude. -/
theorem toBytesBe_isMagnitude (m : ℕ) : IsMagnitude (toBytesBe m) m := by
  by_cases hm : m = 0
  · subst hm
    refine ⟨by decide, ?_, by decide, .inr ⟨rfl, rfl⟩⟩
    intro j hj
    simp [toBytesBe, byteAt]
  · have hlen : (toBytesBe m).length = (Nat.digits 256 m).length := by simp [toBytesBe, hm]
    have hpos : 0 < (Nat.digits 256 m).length :=
      List.length_pos_iff.mpr (Nat.digits_ne_nil_iff_ne_zero.mpr hm)
    refine ⟨by omega, ?_, ?_, .inl ?_⟩
    · intro j hj
      have hidx : (((toBytesBe m).length : ℤ) - 1 - j).toNat =
          (Nat.digits 256 m).length - 1 - j := by omega
      have hj' : j < (Nat.digits 256 m).length := by omega
      unfold byteAt
      rw [hidx, toBytesBe, if_neg hm, List.getD_eq_getElem?_getD, List.getElem?_map,
        List.getElem?_reverse (by omega)]
      rw [show (Nat.digits 256 m).length - 1 - ((Nat.digits 256 m).length - 1 - j) = j by omega,
        ← Nat.getD_digits m j (by norm_num : 2 ≤ 256), List.getD_eq_getElem?_getD,
        List.getElem?_eq_getElem hj']
      have hlt : (Nat.digits 256 m)[j] < 256 :=
        Nat.digits_lt_base (by norm_num) (List.getElem_mem hj')
      simp [Nat.mod_eq_of_lt hlt]
    · rw [hlen]
      exact Nat.lt_base_pow_length_digits (by norm_num)
    · rw [hlen]
      have hle := Nat.base_pow_length_digits_le 256 m (by norm_num) hm
      have hsucc : (256 : ℕ) ^ (Nat.digits 256 m).length =
          256 * 256 ^ ((Nat.digits 256 m).length - 1) := by
        rw [← pow_succ', Nat.sub_add_cancel hpos]
      omega

/-- The first byte holds everything above the other bytes. -/
theorem IsMagnitude.first (h : IsMagnitude bytes m) :
    byteAt bytes 0 = m / 256 ^ (bytes.length - 1) := by
  have hpos := h.pos
  have hd := h.digit (bytes.length - 1) (by omega)
  rw [show (bytes.length : ℤ) - 1 - ((bytes.length - 1 : ℕ) : ℤ) = 0 by omega] at hd
  have hpow : (256 : ℕ) ^ bytes.length = 256 ^ (bytes.length - 1) * 256 := by
    rw [← pow_succ, Nat.sub_add_cancel hpos]
  have hdiv : m / 256 ^ (bytes.length - 1) < 256 :=
    Nat.div_lt_of_lt_mul (by rw [← hpow]; exact h.lt)
  rw [hd, Nat.mod_eq_of_lt hdiv]

/-- The bytes of `num_bigint` have no leading zero to strip. -/
theorem stripLeadingZero_toBytesBe (m : ℕ) :
    stripLeadingZero (toBytesBe m) = toBytesBe m := by
  have h := toBytesBe_isMagnitude m
  unfold stripLeadingZero
  rw [if_neg]
  rintro ⟨hlen, hhead⟩
  have htop : byteAt (toBytesBe m) 0 = 0 := by
    obtain ⟨b, rest, hb⟩ := List.exists_cons_of_length_pos h.pos
    have hzero : b = 0 := by simpa [hb] using hhead
    simp [byteAt, hb, hzero]
  rw [h.first] at htop
  rcases h.lead with hlead | ⟨-, hone⟩
  · have := Nat.div_pos hlead (Nat.pos_of_ne_zero (by positivity))
    omega
  · omega

/-! ## The regrouping loop -/

/-- Two neighbouring bytes, shifted to the offset of a group, give the group. -/
theorem shift_or_and_0x7f (x o : ℕ) (ho : 0 < o) (ho8 : o < 8) :
    ((x % 256) >>> (8 - o) ||| (x / 256 % 256) <<< o) &&& 0x7f = x / 2 ^ (8 - o) % 128 := by
  have hlow : (x % 256) >>> (8 - o) < 2 ^ o := by
    rw [Nat.shiftRight_eq_div_pow]
    apply Nat.div_lt_of_lt_mul
    rw [← pow_add, show 8 - o + o = 8 by omega]
    exact Nat.mod_lt _ (by norm_num)
  rw [Nat.or_comm, ← Nat.shiftLeft_add_eq_or_of_lt hlow,
    show (0x7f : ℕ) = 2 ^ 7 - 1 from rfl, Nat.and_two_pow_sub_one_eq_mod,
    Nat.shiftRight_eq_div_pow, Nat.shiftLeft_eq]
  interval_cases o <;> omega

/-- After `k` rounds the counters of the loop are `k % 8` and `len - 1 - k + k / 8`, and the
group taken there is the `k`-th one from the least significant end. -/
theorem packGroup_eq (h : IsMagnitude bytes m) (k : ℕ) :
    packGroup bytes (k % 8) ((bytes.length : ℤ) - 1 - k + (k / 8 : ℕ)) = m / 128 ^ k % 128 := by
  have hbeyond : ∀ j, bytes.length ≤ j → m / 256 ^ j = 0 := fun j hj =>
    Nat.div_eq_of_lt (lt_of_lt_of_le h.lt (Nat.pow_le_pow_right (by norm_num) hj))
  obtain ⟨q, o, ho, rfl⟩ : ∃ q o, o < 8 ∧ k = 8 * q + o :=
    ⟨k / 8, k % 8, Nat.mod_lt _ (by norm_num), (Nat.div_add_mod k 8).symm⟩
  have hmod : (8 * q + o) % 8 = o := by omega
  have hdiv : (8 * q + o) / 8 = q := by omega
  unfold packGroup
  rw [hmod, hdiv]
  by_cases ho0 : o = 0
  · -- a new byte starts with this group
    subst ho0
    have hpow : (128 : ℕ) ^ (8 * q + 0) = 256 ^ (7 * q) := by
      rw [show (128 : ℕ) = 2 ^ 7 from rfl, show (256 : ℕ) = 2 ^ 8 from rfl, ← pow_mul, ← pow_mul]
      congr 1
      omega
    rw [hpow, if_pos rfl]
    have hmask : ∀ x : ℕ, x % 256 &&& 0x7f = x % 128 := fun x => by
      rw [show (0x7f : ℕ) = 2 ^ 7 - 1 from rfl, Nat.and_two_pow_sub_one_eq_mod]
      omega
    by_cases hidx : 7 * q < bytes.length
    · rw [if_pos (by omega), show (bytes.length : ℤ) - 1 - ((8 * q + 0 : ℕ) : ℤ) + (q : ℤ) =
        (bytes.length : ℤ) - 1 - ((7 * q : ℕ) : ℤ) by omega, h.digit _ hidx, hmask]
    · rw [if_neg (by omega), hbeyond _ (by omega)]
      rfl
  · -- the group straddles the bytes `7q + o - 1` and `7q + o`
    have hpow : (128 : ℕ) ^ (8 * q + o) = 256 ^ (7 * q + o - 1) * 2 ^ (8 - o) := by
      rw [show (128 : ℕ) = 2 ^ 7 from rfl, show (256 : ℕ) = 2 ^ 8 from rfl, ← pow_mul, ← pow_mul,
        ← pow_add]
      congr 1
      omega
    have hnext : m / 256 ^ (7 * q + o - 1) / 256 = m / 256 ^ (7 * q + o) := by
      rw [Nat.div_div_eq_div_mul, ← pow_succ, show 7 * q + o - 1 + 1 = 7 * q + o by omega]
    have hgroup := shift_or_and_0x7f (m / 256 ^ (7 * q + o - 1)) o (by omega) ho
    rw [hnext] at hgroup
    rw [hpow, ← Nat.div_div_eq_div_mul, if_neg ho0, ← hgroup]
    by_cases hidx : 7 * q + o - 1 < bytes.length
    · have hlow : byteAt bytes ((bytes.length : ℤ) - 1 - ((8 * q + o : ℕ) : ℤ) + (q : ℤ) + 1) =
          m / 256 ^ (7 * q + o - 1) % 256 := by
        rw [← h.digit _ hidx]
        congr 1
        omega
      rw [if_pos (by omega), hlow]
      by_cases htop : 7 * q + o < bytes.length
      · have hhigh : byteAt bytes ((bytes.length : ℤ) - 1 - ((8 * q + o : ℕ) : ℤ) + (q : ℤ)) =
            m / 256 ^ (7 * q + o) % 256 := by
          rw [← h.digit _ htop]
          congr 1
          omega
        rw [if_pos (by omega), hhigh]
      · rw [if_neg (by omega), hbeyond (7 * q + o) (by omega)]
        simp
    · rw [if_neg (by omega), hbeyond _ (by omega), hbeyond _ (by omega)]
      simp

/-- The value stored at output index `j`: setting a flag on a free place adds it. -/
theorem packStep_value {negative : Option Bool} (hj : j < n)
    (hfree : negative = some true → group n m 0 < 64) :
    (if negative = some true ∧ j = 0 then
      (if j ≠ n - 1 then group n m j ||| 0x80 else group n m j) ||| 0x40
     else if j ≠ n - 1 then group n m j ||| 0x80 else group n m j) =
      packedByte (decide (negative = some true)) n m j := by
  have hg := group_lt n m j
  have hE : (if j ≠ n - 1 then group n m j ||| 0x80 else group n m j) =
      group n m j + if j + 1 < n then 128 else 0 := by
    by_cases hlast : j = n - 1
    · rw [if_neg (by omega), if_neg (by omega), Nat.add_zero]
    · rw [if_pos hlast, if_pos (by omega), or_0x80_eq_add hg]
  simp only [hE, packedByte, decide_eq_true_eq]
  by_cases hs : negative = some true ∧ j = 0
  · obtain ⟨hsign, rfl⟩ := hs
    have hlow := hfree hsign
    simp only [hsign, and_self, if_true]
    split <;> exact or_0x40_eq_add (by omega) (by omega)
  · simp only [hs, if_false, Nat.add_zero]

/-- **The encoder's loop.**  It stores `packedBytes` at the start index and leaves the rest of
the destination as it was. -/
theorem packLoop_eq (h : IsMagnitude bytes m) (negative : Option Bool) (n start : ℕ)
    (dst : Bytes) (hfree : negative = some true → group n m 0 < 64)
    (hroom : start + n ≤ dst.length) :
    ((List.range n).reverse.foldl (packStep negative bytes n start)
      ⟨0, (bytes.length : ℤ) - 1, dst⟩).dst =
      dst.take start ++ packedBytes (decide (negative = some true)) n m ++
        dst.drop (start + n) := by
  set packed := packedBytes (decide (negative = some true)) n m with hpacked
  -- after `k` rounds the last `k` bytes are written
  let I : ℕ → PackLoop → Prop := fun k s =>
    s.offset = k % 8 ∧ s.index = (bytes.length : ℤ) - 1 - k + (k / 8 : ℕ) ∧
      s.dst = dst.take (start + n - k) ++ (packed.drop (n - k) ++ dst.drop (start + n))
  have key : I n ((List.range n).reverse.foldl (packStep negative bytes n start)
      ⟨0, (bytes.length : ℤ) - 1, dst⟩) := by
    apply foldl_range_reverse_invariant
    · refine ⟨rfl, by simp, ?_⟩
      simp [hpacked, List.drop_of_length_le]
    · rintro k hk ⟨offset, index, dst'⟩ ⟨hoff, hidx, hdst⟩
      subst hoff hidx hdst
      refine ⟨?_, ?_, ?_⟩
      · simp only [packStep]
        split <;> omega
      · simp only [packStep]
        split <;> push_cast <;> omega
      · have hgroup : m / 128 ^ k % 128 = group n m (n - 1 - k) := by
          rw [group, show n - 1 - (n - 1 - k) = k by omega]
        have hnext : packed.drop (n - 1 - k) =
            UInt8.ofNat (packedByte (decide (negative = some true)) n m (n - 1 - k)) ::
              packed.drop (n - k) := by
          have hlt : n - 1 - k < packed.length := by simp [hpacked]; omega
          rw [List.drop_eq_getElem_cons hlt, show n - 1 - k + 1 = n - k by omega]
          simp [hpacked, packedBytes]
        simp only [packStep, packGroup_eq h, hgroup]
        rw [packStep_value (by omega) hfree, show start + n - k = start + (n - 1 - k) + 1 by omega,
          take_succ_append_set _ _ _ _ (by omega), show n - (k + 1) = n - 1 - k by omega, hnext,
          show start + n - (k + 1) = start + (n - 1 - k) by omega]
        rfl
  obtain ⟨-, -, hdst⟩ := key
  rw [hdst]
  simp

/-! ## The number of groups -/

theorem size_div_two (hn : n ≠ 0) : n.size = (n / 2).size + 1 := by
  have hup : n / 2 < 2 ^ (n / 2).size := Nat.lt_size_self (n / 2)
  apply Nat.le_antisymm
  · rw [Nat.size_le, pow_succ]
    omega
  · rw [Nat.succ_le_iff, Nat.lt_size]
    by_cases hhalf : n / 2 = 0
    · simp only [hhalf, Nat.size_zero, pow_zero]
      omega
    · obtain ⟨k, hk⟩ : ∃ k, (n / 2).size = k + 1 :=
        Nat.exists_eq_succ_of_ne_zero (by simpa [Nat.size_eq_zero] using hhalf)
      have hlow : 2 ^ k ≤ n / 2 := Nat.lt_size.mp (by omega)
      rw [hk, pow_succ]
      omega

/-- The shift loop adds the bit length of its argument. -/
theorem countBits_eq (last required : ℕ) : countBits last required = required + last.size := by
  induction last, required using countBits.induct with
  | case1 required => simp [countBits]
  | case2 last required hne ih =>
    rw [countBits, if_neg hne, ih, size_div_two hne, Nat.shiftRight_eq_div_pow]
    simp only [pow_one]
    omega

/-- The bit length of a byte is eight exactly when its top bit is set. -/
theorem size_byte (b : UInt8) : b.toNat.size ≤ 8 ∧ (b &&& 0x80 ≠ 0 ↔ b.toNat.size = 8) := by
  have hle : b.toNat.size ≤ 8 := Nat.size_le.mpr b.toNat_lt
  rw [ne_eq, and_0x80_eq_zero_iff]
  have hseven : b.toNat.size ≤ 7 ↔ b.toNat < 128 := by
    rw [Nat.size_le]
  omega

/-- What `n` groups hold, as a power of two: seven bits each, less the sign bit. -/
theorem fits_iff (signed : Bool) (n m : ℕ) :
    Fits signed n m ↔ 1 ≤ n ∧ m < 2 ^ (7 * n - if signed then 1 else 0) := by
  unfold Fits
  refine and_congr_right fun hn => ?_
  obtain ⟨k, rfl⟩ : ∃ k, n = k + 1 := ⟨n - 1, by omega⟩
  have h128 : ∀ i : ℕ, (128 : ℕ) ^ i = 2 ^ (7 * i) := fun i => by
    rw [show (128 : ℕ) = 2 ^ 7 from rfl, ← pow_mul]
  cases signed with
  | false => simp [h128]
  | true =>
    simp only [if_true, h128, Nat.add_sub_cancel]
    rw [show 7 * (k + 1) - 1 = 6 + 7 * k by omega, pow_add]
    norm_num

/-- The least number of groups, by the bit length. -/
theorem shortest_size (h : Shortest signed n m) :
    1 ≤ n ∧ m.size + (if signed then 1 else 0) ≤ 7 * n ∧
      (n = 1 ∨ 7 * (n - 1) < m.size + if signed then 1 else 0) := by
  obtain ⟨hfit, hleast⟩ := h
  obtain ⟨hone, hlt⟩ := (fits_iff signed n m).mp hfit
  have hup := Nat.size_le.mpr hlt
  have hs : (if signed then 1 else 0) ≤ 1 := by split <;> simp
  refine ⟨hone, by omega, ?_⟩
  by_cases hn : n = 1
  · exact .inl hn
  · right
    -- one group less does not hold the magnitude
    have hless : ¬ Fits signed (n - 1) m := fun hfit' => by
      have := hleast (n - 1) hfit'
      omega
    rw [fits_iff, not_and, ← Nat.size_le] at hless
    omega

/-- The magnitude lies between the powers of two its length and the bit length of its first
byte give. -/
theorem IsMagnitude.bounds {first : UInt8} {rest : Bytes} (h : IsMagnitude (first :: rest) m) :
    m < 2 ^ (8 * rest.length + first.toNat.size) ∧
      ((m = 0 ∧ rest = [] ∧ first.toNat.size = 0) ∨
        (1 ≤ first.toNat.size ∧ 2 ^ (8 * rest.length + first.toNat.size - 1) ≤ m)) := by
  have hfirst : first.toNat = m / 256 ^ rest.length := by simpa [byteAt] using h.first
  have h256 : (256 : ℕ) ^ rest.length = 2 ^ (8 * rest.length) := by
    rw [show (256 : ℕ) = 2 ^ 8 from rfl, ← pow_mul]
  have hpos : 0 < (2 : ℕ) ^ (8 * rest.length) := by positivity
  rw [h256] at hfirst
  constructor
  · have hlt : m / 2 ^ (8 * rest.length) < 2 ^ first.toNat.size :=
      hfirst ▸ Nat.lt_size_self first.toNat
    rw [pow_add]
    exact (Nat.div_lt_iff_lt_mul hpos).mp hlt |>.trans_eq (mul_comm _ _)
  · rcases h.lead with hlead | ⟨hm, hone⟩
    · right
      simp only [List.length_cons, Nat.add_sub_cancel, h256] at hlead
      have hnz : first.toNat ≠ 0 := by
        rw [hfirst]
        exact (Nat.div_pos hlead hpos).ne'
      obtain ⟨k, hk⟩ := Nat.exists_eq_succ_of_ne_zero
        (show first.toNat.size ≠ 0 by simpa [Nat.size_eq_zero] using hnz)
      have hlow : 2 ^ k ≤ m / 2 ^ (8 * rest.length) := hfirst ▸ Nat.lt_size.mp (by omega)
      refine ⟨by omega, ?_⟩
      rw [hk, show 8 * rest.length + k.succ - 1 = k + 8 * rest.length by omega, pow_add]
      exact (Nat.le_div_iff_mul_le hpos).mp hlow
    · left
      have hrest : rest = [] := by simpa using hone
      subst hrest hm
      exact ⟨rfl, rfl, by simp [hfirst]⟩

/-- The formula counts a spare bit in every eighth byte: for a magnitude of `8a + b` bits it
is `⌈(8a + b + s) / 7⌉`, for every length `a`. -/
theorem packFormula_bounds (a b s n : ℕ) (hb : b ≤ 8) (hs : s ≤ 1)
    (hn : n = (9 * a + a / 7 + b + (if b = 8 then 1 else 0) + s + 8) / 8) :
    1 ≤ n ∧ 8 * a + b ≤ 7 * n - s ∧ (1 ≤ b → n = 1 ∨ 7 * (n - 1) - s ≤ 8 * a + b - 1) := by
  -- the extra byte appears after each seven, so the length is split as `7q + r`
  by_cases h8 : b = 8
  · rw [if_pos h8] at hn
    exact ⟨by omega, by omega, fun _ => by omega⟩
  · rw [if_neg h8] at hn
    exact ⟨by omega, by omega, fun _ => by omega⟩

/-- The formula on the length and the bit length of the first byte. -/
theorem calcPackReqBytesBytes_eq (signed : Bool) (first : UInt8) (rest : Bytes) :
    calcPackReqBytesBytes signed (first :: rest) =
      (9 * rest.length + rest.length / 7 + first.toNat.size +
        (if first.toNat.size = 8 then 1 else 0) + (if signed then 1 else 0) + 8) / 8 := by
  obtain ⟨-, htop⟩ := size_byte first
  simp only [calcPackReqBytesBytes, countBits_eq, List.length_cons, Nat.add_sub_cancel, htop]
  split <;> split <;> rfl

/-- **The closed formula.**  `calc_pack_req_bytes_bytes` is the least number of groups that
hold the magnitude and, in the signed mode, the sign bit. -/
theorem calcPackReqBytesBytes_shortest (h : IsMagnitude bytes m) (signed : Bool) :
    Shortest signed (calcPackReqBytesBytes signed bytes) m := by
  obtain ⟨first, rest, rfl⟩ := List.exists_cons_of_length_pos h.pos
  obtain ⟨hup, hlow⟩ := h.bounds
  obtain ⟨hsize, -⟩ := size_byte first
  have hformula := calcPackReqBytesBytes_eq signed first rest
  have hs : (if signed then 1 else 0) ≤ 1 := by split <;> omega
  obtain ⟨hone, hfit, hleast⟩ := packFormula_bounds rest.length first.toNat.size
    (if signed then 1 else 0) _ hsize hs hformula
  apply shortest_of_bounds
  · rw [fits_iff]
    exact ⟨hone, lt_of_lt_of_le hup (Nat.pow_le_pow_right (by norm_num) hfit)⟩
  · rcases hlow with ⟨-, rfl, hzero⟩ | ⟨hbits, hlow⟩
    · left
      rw [hformula, hzero]
      cases signed <;> rfl
    · rcases hleast hbits with hn | hn
      · exact .inl hn
      · right
        rw [fits_iff, not_and, Nat.not_lt]
        intro _
        exact le_trans (Nat.pow_le_pow_right (by norm_num) hn) hlow

/-! ## The encoder -/

/-- `pack_value_magnitude` writes the shortest encoding at the start index, when there is
room for it, and nothing else. -/
theorem packValueMagnitude_eq (h : IsMagnitude bytes m) (negative : Option Bool) (dst : Bytes)
    (start : ℕ) (hroom : start + calcPackReqBytesBytes negative.isSome bytes ≤ dst.length) :
    packValueMagnitude negative bytes dst start =
      .ok (calcPackReqBytesBytes negative.isSome bytes,
        dst.take start ++
          packedBytes (decide (negative = some true))
            (calcPackReqBytesBytes negative.isSome bytes) m ++
          dst.drop (start + calcPackReqBytesBytes negative.isSome bytes)) := by
  have hne : bytes ≠ [] := List.ne_nil_of_length_pos h.pos
  have hshort := calcPackReqBytesBytes_shortest h negative.isSome
  have hfree : negative = some true →
      group (calcPackReqBytesBytes negative.isSome bytes) m 0 < 64 := by
    intro hneg
    subst hneg
    exact hshort.1.group_zero_lt
  unfold packValueMagnitude
  rw [if_neg hne, if_neg (by omega), packLoop_eq h negative _ start dst hfree hroom]

/-- The magnitude `pack_value` stores for a value. -/
def packMagnitude (v : ℤ) : ℕ := (if v < 0 then -v - 1 else v).natAbs

theorem signedValue_packMagnitude (v : ℤ) :
    signedValue (decide (v < 0)) (packMagnitude v) = v := by
  unfold signedValue packMagnitude
  by_cases hv : v < 0
  · simp only [hv, decide_true, if_true]
    omega
  · simp only [hv, decide_false, if_false, Bool.false_eq_true]
    omega

/-- How a value is written into a buffer, for every value its mode has: the number of bytes is
the least one, and they are the encoding of the value's sign and magnitude. -/
theorem packValueMagnitude_value (signed : Bool) (v : ℤ) (hv : signed = false → 0 ≤ v) :
    ∃ negative magnitude n, magnitudeBytesForPack signed v = .ok (negative, magnitude) ∧
      calcPackReqBytesBytes negative.isSome magnitude = n ∧ Shortest signed n (packMagnitude v) ∧
      packValue signed v = .ok (packedBytes (decide (v < 0)) n (packMagnitude v)) ∧
      ∀ dst start, start + n ≤ dst.length →
        packValueMagnitude negative magnitude dst start =
          .ok (n, dst.take start ++ packedBytes (decide (v < 0)) n (packMagnitude v) ++
            dst.drop (start + n)) := by
  have hmag := toBytesBe_isMagnitude (packMagnitude v)
  have hbytes : magnitudeBytesForPack signed v =
      .ok (if signed then some (decide (v < 0)) else none, toBytesBe (packMagnitude v)) := by
    unfold magnitudeBytesForPack packMagnitude
    simp only [stripLeadingZero_toBytesBe]
    cases signed with
    | true => simp
    | false => simp [show ¬ v < 0 from not_lt.mpr (hv rfl)]
  set negative : Option Bool := if signed then some (decide (v < 0)) else none with hneg
  have hsome : negative.isSome = signed := by cases signed <;> simp [hneg]
  have hsign : decide (negative = some true) = decide (v < 0) := by
    cases signed with
    | true => simp [hneg]
    | false => simpa [hneg] using hv rfl
  set n := calcPackReqBytesBytes signed (toBytesBe (packMagnitude v))
  have hn : calcPackReqBytesBytes negative.isSome (toBytesBe (packMagnitude v)) = n := by rw [hsome]
  have hpack : ∀ dst start, start + n ≤ dst.length →
      packValueMagnitude negative (toBytesBe (packMagnitude v)) dst start =
        .ok (n, dst.take start ++ packedBytes (decide (v < 0)) n (packMagnitude v) ++
          dst.drop (start + n)) := by
    intro dst start hroom
    rw [packValueMagnitude_eq hmag negative dst start (hn.symm ▸ hroom), hn, hsign]
  refine ⟨negative, toBytesBe (packMagnitude v), n, hbytes, hn,
    calcPackReqBytesBytes_shortest hmag signed, ?_, hpack⟩
  -- `pack_value` packs into a buffer of just this length
  simp only [packValue, hbytes, bind, Except.bind, hn, hpack (List.replicate n 0) 0 (by simp), pure,
    Except.pure]
  simp

/-- **The encoder.**  `pack_value` succeeds on every value its mode has and gives the shortest
encoding of the value's sign and magnitude. -/
theorem packValue_eq (signed : Bool) (v : ℤ) (hv : signed = false → 0 ≤ v) :
    ∃ n, Shortest signed n (packMagnitude v) ∧
      packValue signed v = .ok (packedBytes (decide (v < 0)) n (packMagnitude v)) := by
  obtain ⟨-, -, n, -, -, hshort, hpacked, -⟩ := packValueMagnitude_value signed v hv
  exact ⟨n, hshort, hpacked⟩

/-- `pack_value_into` at the end of a buffer that has just room for the value. -/
theorem packValueInto_end (signed : Bool) (v : ℤ) (hv : signed = false → 0 ≤ v)
    (buffer encoded : Bytes) (henc : packValue signed v = .ok encoded) :
    packValueInto signed v (buffer ++ List.replicate encoded.length 0) buffer.length =
      .ok (encoded.length, buffer ++ encoded) := by
  obtain ⟨negative, magnitude, n, hbytes, hn, -, hpacked, hpack⟩ :=
    packValueMagnitude_value signed v hv
  obtain rfl : packedBytes (decide (v < 0)) n (packMagnitude v) = encoded :=
    Except.ok.inj (hpacked.symm.trans henc)
  rw [packedBytes_length]
  have hroom : buffer.length + n ≤ (buffer ++ List.replicate n (0 : UInt8)).length := by simp
  simp only [packValueInto, hbytes, bind, Except.bind, hn, hpack _ _ hroom, pure, Except.pure]
  simp

/-! ## The decoder -/

/-- The scan stops behind the first byte without the continuation flag. -/
theorem usedBytes_eq (flagged : Bytes) (last : UInt8) (post : Bytes) (used : ℕ)
    (hflag : ∀ b ∈ flagged, b &&& 0x80 ≠ 0) (hlast : last &&& 0x80 = 0) :
    usedBytes (flagged ++ last :: post) used = .ok (used + flagged.length) := by
  induction flagged generalizing used with
  | nil => simp [usedBytes, hlast]
  | cons b flagged ih =>
    have hb : b &&& 0x80 ≠ 0 := hflag b List.mem_cons_self
    have hrest : ∀ c ∈ flagged, c &&& 0x80 ≠ 0 := fun c hc => hflag c (List.mem_cons_of_mem b hc)
    rw [List.cons_append, usedBytes, if_neg hb, ih (used + 1) hrest, List.length_cons]
    congr 1
    omega

/-- What a mask leaves of byte `j`, as the decoder chooses the mask. -/
def digitOf (signed : Bool) (bytes : Bytes) (j : ℕ) : ℕ :=
  if signed = true ∧ j = 0 then (bytes.getD j 0).toNat % 64 else (bytes.getD j 0).toNat % 128

theorem digitOf_lt (signed : Bool) (bytes : Bytes) (j : ℕ) : digitOf signed bytes j < 128 := by
  unfold digitOf
  split <;> omega

/-- The decoder reads the digits and the sign bit of the bytes it has counted. -/
theorem unpackValue_digits (hused : usedBytes (data.drop start) 1 = .ok n) :
    unpackValue signed data start =
      .ok (signedValue
          (decide (signed = true ∧ 64 ≤ ((data.drop start).getD 0 0).toNat % 128))
          ((List.range n).foldl
            (fun acc j => acc * 128 + digitOf signed (data.drop start) j) 0), n) := by
  have hget : ∀ j, data.getD (start + j) 0 = (data.drop start).getD j 0 := by
    intro j
    rw [List.getD_eq_getElem?_getD, List.getD_eq_getElem?_getD, List.getElem?_drop]
  have hdigit : ∀ j, (data.getD (start + j) 0 &&&
      (if j = 0 then (if signed then (0x3f : UInt8) else 0x7f) else 0x7f)).toNat =
        digitOf signed (data.drop start) j := by
    intro j
    rw [hget]
    unfold digitOf
    by_cases hj : j = 0
    · cases signed with
      | true => rw [if_pos hj, if_pos rfl, if_pos ⟨rfl, hj⟩, and_0x3f_toNat]
      | false =>
        rw [if_pos hj, if_neg Bool.false_ne_true, and_0x7f_toNat,
          if_neg fun h => Bool.false_ne_true h.1]
    · rw [if_neg hj, and_0x7f_toNat, if_neg fun h => hj h.2]
  have hbit : (signed = true ∧ data.getD start 0 &&& 0x40 ≠ 0) ↔
      (signed = true ∧ 64 ≤ ((data.drop start).getD 0 0).toNat % 128) := by
    rw [ne_eq, and_0x40_eq_zero_iff, Nat.not_lt, ← hget 0, Nat.add_zero]
  unfold unpackValue signedValue
  simp only [hused, bind, Except.bind, pure, Except.pure, hbit, hdigit, decide_eq_true_eq]

section Decoder

variable {sign : Bool} {n m : ℕ}

/-- Byte `j` of an encoding, as a number. -/
theorem getD_packedBytes_toNat (post : Bytes) (hj : j < n)
    (hfree : sign = true → group n m 0 < 64) :
    ((packedBytes sign n m ++ post).getD j 0).toNat = packedByte sign n m j := by
  rw [List.getD_eq_getElem?_getD, List.getElem?_append_left (by simpa using hj),
    packedBytes_getElem? sign hj, Option.getD_some, UInt8.toNat_ofNat',
    Nat.mod_eq_of_lt (packedByte_lt hfree)]

/-- The scan over an encoding counts exactly its bytes. -/
theorem usedBytes_packedBytes (hn : 1 ≤ n) (hfree : sign = true → group n m 0 < 64)
    (post : Bytes) : usedBytes (packedBytes sign n m ++ post) 1 = .ok n := by
  obtain ⟨k, rfl⟩ : ∃ k, n = k + 1 := ⟨n - 1, by omega⟩
  have hnat : ∀ j, (UInt8.ofNat (packedByte sign (k + 1) m j)).toNat =
      packedByte sign (k + 1) m j := by
    intro j
    rw [UInt8.toNat_ofNat', Nat.mod_eq_of_lt (packedByte_lt hfree)]
  have hsplit : packedBytes sign (k + 1) m ++ post =
      (List.range k).map (fun j => UInt8.ofNat (packedByte sign (k + 1) m j)) ++
        UInt8.ofNat (packedByte sign (k + 1) m k) :: post := by
    simp [packedBytes, List.range_succ]
  rw [hsplit, usedBytes_eq]
  · simp [Nat.add_comm]
  · intro b hb
    obtain ⟨j, hj, rfl⟩ := List.mem_map.mp hb
    rw [List.mem_range] at hj
    rw [ne_eq, and_0x80_eq_zero_iff, hnat, packedByte_lt_128_iff (by omega) hfree]
    omega
  · rw [and_0x80_eq_zero_iff, hnat, packedByte_lt_128_iff (by omega) hfree]

/-- Masking the flags away leaves the group of seven bits. -/
theorem packedByte_mod (sign : Bool) (n m j : ℕ) :
    (¬ (sign = true ∧ j = 0) → packedByte sign n m j % 128 = group n m j) ∧
      (group n m 0 < 64 → packedByte sign n m 0 % 64 = group n m 0) := by
  have hg := group_lt n m j
  unfold packedByte
  constructor
  · intro hs
    split <;> omega
  · intro h64
    split <;> split <;> omega

/-- The sign bit of the first byte is the sign. -/
theorem packedByte_sign (h64 : group n m 0 < 64) :
    packedByte sign n m 0 % 128 < 64 ↔ sign = false := by
  unfold packedByte
  cases sign with
  | false =>
    simp only [Bool.false_eq_true, false_and, if_false, iff_true]
    split <;> omega
  | true =>
    simp only [and_self, if_true, Bool.true_eq_false, iff_false]
    split <;> omega

/-- **The decoder.**  Wherever an encoding stands in a buffer, `unpack_value` gives back the
sign and the magnitude, and the length of the encoding.  An encoding need not be the shortest
one. -/
theorem unpackValue_packedBytes (hfit : Fits signed n m) (hsign : sign = true → signed = true)
    (pre post : Bytes) :
    unpackValue signed (pre ++ packedBytes sign n m ++ post) pre.length =
      .ok (signedValue sign m, n) := by
  have h64 : signed = true → group n m 0 < 64 := by
    rintro rfl
    exact hfit.group_zero_lt
  have hfree : sign = true → group n m 0 < 64 := fun hs => h64 (hsign hs)
  have hdrop : (pre ++ packedBytes sign n m ++ post).drop pre.length =
      packedBytes sign n m ++ post := by
    rw [List.append_assoc, List.drop_left]
  have hused : usedBytes ((pre ++ packedBytes sign n m ++ post).drop pre.length) 1 = .ok n := by
    rw [hdrop, usedBytes_packedBytes hfit.1 hfree]
  have hdigit : ∀ j < n, digitOf signed (packedBytes sign n m ++ post) j = group n m j := by
    intro j hj
    obtain ⟨hplain, hfirst⟩ := packedByte_mod sign n m j
    unfold digitOf
    rw [getD_packedBytes_toNat post hj hfree]
    by_cases hcase : signed = true ∧ j = 0
    · obtain ⟨hs, rfl⟩ := hcase
      rw [if_pos ⟨hs, rfl⟩, hfirst (h64 hs)]
    · rw [if_neg hcase, hplain fun h => hcase ⟨hsign h.1, h.2⟩]
  have hbit : decide (signed = true ∧
      64 ≤ ((packedBytes sign n m ++ post).getD 0 0).toNat % 128) = sign := by
    rw [getD_packedBytes_toNat post hfit.1 hfree]
    cases hs : signed with
    | true => cases sign <;> simp [← Nat.not_lt, packedByte_sign (h64 hs)]
    | false => cases sign <;> simp_all
  rw [unpackValue_digits hused, hdrop, hbit,
    List.foldl_ext _ (fun acc j => acc * 128 + m / 128 ^ (n - 1 - j) % 128) 0
      (fun acc j hj => by rw [hdigit j (List.mem_range.mp hj)]; rfl),
    foldl_digits_eq 128 m n hfit.lt_pow]

end Decoder

/-- A scan that ends has passed flagged bytes only and stands on one without the flag. -/
theorem usedBytes_eq_ok (h : usedBytes data used = .ok n) :
    ∃ (flagged : Bytes) (last : UInt8) (post : Bytes),
      data = flagged ++ last :: post ∧ n = used + flagged.length ∧
      (∀ b ∈ flagged, b &&& 0x80 ≠ 0) ∧ last &&& 0x80 = 0 := by
  induction data generalizing used with
  | nil => simp [usedBytes] at h
  | cons byte rest ih =>
    rw [usedBytes] at h
    by_cases hb : byte &&& 0x80 = 0
    · rw [if_pos hb, Except.ok.injEq] at h
      exact ⟨[], byte, rest, rfl, by simp [h], by simp, hb⟩
    · rw [if_neg hb] at h
      obtain ⟨flagged, last, post, hrest, hn, hflag, hlast⟩ := ih h
      refine ⟨byte :: flagged, last, post, by rw [hrest, List.cons_append], ?_, ?_, hlast⟩
      · rw [hn, List.length_cons]
        omega
      · intro c hc
        rcases List.mem_cons.mp hc with rfl | hc
        · exact hb
        · exact hflag c hc

theorem usedBytes_of_unpackValue {v : ℤ} (h : unpackValue signed data start = .ok (v, used)) :
    usedBytes (data.drop start) 1 = .ok used := by
  unfold unpackValue at h
  cases hu : usedBytes (data.drop start) 1 with
  | error e => simp [hu, bind, Except.bind] at h
  | ok n =>
    simp only [hu, bind, Except.bind, pure, Except.pure, Except.ok.injEq, Prod.mk.injEq] at h
    rw [h.2]

/-- The flag of byte `j` says whether it is the last one. -/
theorem flag_iff {flagged : Bytes} {last : UInt8} (post : Bytes)
    (hflag : ∀ b ∈ flagged, b &&& 0x80 ≠ 0) (hlast : last &&& 0x80 = 0) (hj : j ≤ flagged.length) :
    128 ≤ ((flagged ++ last :: post).getD j 0).toNat ↔ j < flagged.length := by
  rw [← Nat.not_lt, ← and_0x80_eq_zero_iff, List.getD_eq_getElem?_getD]
  by_cases hjl : j < flagged.length
  · rw [List.getElem?_append_left hjl, List.getElem?_eq_getElem hjl, Option.getD_some]
    exact iff_of_true (hflag _ (List.getElem_mem hjl)) hjl
  · obtain rfl : j = flagged.length := by omega
    simp only [List.getElem?_append_right le_rfl, Nat.sub_self, List.getElem?_cons_zero,
      Option.getD_some, hlast, not_true_eq_false, lt_irrefl]

/-- **What is accepted is well formed.**  A successful `unpack_value` has read an encoding in
the format, of the sign and magnitude it returns. -/
theorem unpackValue_eq_ok {v : ℤ} (h : unpackValue signed data start = .ok (v, used)) :
    ∃ sign m, (sign = true → signed = true) ∧ Fits signed used m ∧ v = signedValue sign m ∧
      ∃ post, data.drop start = packedBytes sign used m ++ post := by
  have hused := usedBytes_of_unpackValue h
  rw [unpackValue_digits hused, Except.ok.injEq, Prod.mk.injEq] at h
  obtain ⟨flagged, last, post, hdrop, hlen, hflag, hlast⟩ := usedBytes_eq_ok hused
  set bytes := data.drop start with hbytes
  obtain ⟨hlt, hdigits⟩ := foldl_digits_inverse 128 used (digitOf signed bytes)
    (fun j _ => digitOf_lt signed bytes j)
  set m := (List.range used).foldl (fun acc j => acc * 128 + digitOf signed bytes j) 0 with hm
  set sign := decide (signed = true ∧ 64 ≤ (bytes.getD 0 0).toNat % 128) with hsign
  have hgroup : ∀ j < used, group used m j = digitOf signed bytes j := hdigits
  have hflags : ∀ j < used, (128 ≤ (bytes.getD j 0).toNat ↔ j + 1 < used) := by
    intro j hj
    rw [hdrop, flag_iff post hflag hlast (by omega)]
    omega
  refine ⟨sign, m, fun hs => (of_decide_eq_true hs).1, ⟨by omega, ?_⟩, h.1.symm, post, ?_⟩
  · cases signed with
    | false => exact hlt
    | true =>
      have hfirst := hgroup 0 (by omega)
      have htop : m / 128 ^ (used - 1) < 128 := by
        apply Nat.div_lt_of_lt_mul
        rwa [← pow_succ, Nat.sub_add_cancel (by omega)]
      simp only [group, Nat.sub_zero, Nat.mod_eq_of_lt htop, digitOf, and_self, if_true]
        at hfirst
      simp only [if_true]
      rw [← Nat.div_lt_iff_lt_mul (by positivity), hfirst]
      exact Nat.mod_lt _ (by norm_num)
  · -- byte for byte: flag, sign bit and digit are the ones of the encoding
    have hbyte : ∀ j < used, packedByte sign used m j = (bytes.getD j 0).toNat := by
      intro j hj
      have hf := hflags j hj
      have hb := (bytes.getD j 0).toNat_lt
      unfold packedByte
      rw [hgroup j hj]
      unfold digitOf
      by_cases hfirst : signed = true ∧ j = 0
      · obtain ⟨hs, rfl⟩ := hfirst
        simp only [hs, and_self, if_true, and_true, hsign, true_and, decide_eq_true_eq]
        split <;> split <;> omega
      · have hplain : ¬ (sign = true ∧ j = 0) := by
          rintro ⟨hs, hj0⟩
          exact hfirst ⟨(of_decide_eq_true hs).1, hj0⟩
        rw [if_neg hfirst, if_neg hplain]
        split <;> omega
    have hcut : bytes = (flagged ++ [last]) ++ post := by simp [hdrop]
    rw [hcut]
    congr 1
    apply List.ext_getElem
    · simp [hlen, Nat.add_comm]
    · intro j h₁ h₂
      have hj : j < used := by simpa using h₂
      have hval : bytes.getD j 0 = (flagged ++ [last])[j] := by
        rw [hcut, List.getD_eq_getElem?_getD, List.getElem?_append_left h₁,
          List.getElem?_eq_getElem h₁, Option.getD_some]
      rw [← hval]
      simp [packedBytes, hbyte j hj]

/-- What was packed is read from the middle of any buffer, by the decoder of its own mode and,
when it is not negative, by the unsigned one. -/
theorem unpackValue_packed (signed : Bool) (v : ℤ) (hv : signed = false → 0 ≤ v) :
    ∃ e, packValue signed v = .ok e ∧ ∀ pre post (mode : Bool),
      mode = signed ∨ (mode = false ∧ 0 ≤ v) →
        unpackValue mode (pre ++ e ++ post) pre.length = .ok (v, e.length) := by
  obtain ⟨n, hshort, hpack⟩ := packValue_eq signed v hv
  refine ⟨_, hpack, fun pre post mode hmode => ?_⟩
  have hfit : Fits mode n (packMagnitude v) := by
    rcases hmode with rfl | ⟨rfl, -⟩
    · exact hshort.1
    · exact ⟨hshort.1.1, hshort.1.lt_pow⟩
  have hsign : decide (v < 0) = true → mode = true := by grind
  rw [unpackValue_packedBytes hfit hsign, packedBytes_length, signedValue_packMagnitude]

/-- **Round trip.**  Packing any value its mode has succeeds, and unpacking the bytes from the
middle of any buffer gives the value and the number of bytes back; a non-negative value packed
with a sign is read by the unsigned decoder as well.
SOURCE: tools.rs:135-315 -/
theorem unpackValue_packValue (signed : Bool) (v : ℤ) (pre post : List UInt8)
    (hv : signed = false → 0 ≤ v) :
    ∃ e, packValue signed v = .ok e ∧
      unpackValue signed (pre ++ e ++ post) pre.length = .ok (v, e.length) ∧
      (0 ≤ v → unpackValue false (pre ++ e ++ post) pre.length = .ok (v, e.length)) := by
  obtain ⟨e, hpack, hread⟩ := unpackValue_packed signed v hv
  exact ⟨e, hpack, hread pre post signed (.inl rfl),
    fun hpos => hread pre post false (.inr ⟨rfl, hpos⟩)⟩

/-- The hypothesis at a value of several groups in the unsigned mode. -/
theorem unpackValue_packValue_unsigned :
    ∃ e, packValue false 1000000 = .ok e ∧
      unpackValue false ([7] ++ e ++ [9, 8]) 1 = .ok (1000000, e.length) ∧
      ((0 : ℤ) ≤ 1000000 → unpackValue false ([7] ++ e ++ [9, 8]) 1 = .ok (1000000, e.length)) :=
  unpackValue_packValue false 1000000 [7] [9, 8] (fun _ => by norm_num)

end Uartbus.Analysis
