import Uartbus.Analysis.PackValue
import Uartbus.Model.Addr16

/-!
# The C address codec against the Rust one

Both sides are compared through the format of `Interface.VariableLength`: `packValue_eq` and
`unpackValue_eq_ok` say what the Rust side writes and accepts, the lemmas here what the C side
does for each length.

They are not the same format.  `ub_pack_16_value` stores a value of two bytes without the
continuation flag on the first one, and `ub_unpack_16_value` gives up at the second flagged
byte, before its own branch for three bytes.  `addr16Agrees_iff` says that nothing else
differs.
-/

set_option autoImplicit false

namespace Uartbus.Analysis

open Lib Interface Model

/-- `ub_pack_16_value` writes the bytes of `pack_value(true, v)` at the start of the array,
returns their number and leaves the rest of the array alone. -/
def PackAgrees (v : Int16) (arr : Bytes) : Prop :=
  ∃ e, packValue true v.toInt = .ok e ∧
    ubPack16Value v arr = ((e.length : ℤ), e ++ arr.drop e.length)

/-- `ub_unpack_16_value` returns and stores what `unpack_value(true, buf, 0)` gives when that
is a value of 16 bits, and stores no other value with a positive count. -/
def UnpackAgrees (dst : Int16) (buf : Bytes) : Prop :=
  (∀ v used, unpackValue true buf 0 = .ok (v, used) → -32768 ≤ v → v ≤ 32767 →
    (ubUnpack16Value dst buf).1 = used ∧ (ubUnpack16Value dst buf).2.toInt = v) ∧
  (0 < (ubUnpack16Value dst buf).1 →
    ∃ used, unpackValue true buf 0 = .ok ((ubUnpack16Value dst buf).2.toInt, used))

/-- The buffer starts with an encoding of three bytes or more whose value has 16 bits. -/
def LongInt16 (buf : Bytes) : Prop :=
  ∃ sign n m post, 3 ≤ n ∧ Fits true n m ∧ m < 32768 ∧ buf = packedBytes sign n m ++ post

/-! ## Packing -/

theorem addr16Magnitude_eq (v : Int16) : addr16Magnitude v = packMagnitude v.toInt := by
  unfold addr16Magnitude packMagnitude
  split <;> omega

theorem packMagnitude_lt (v : Int16) : packMagnitude v.toInt < 32768 := by
  have hlow := v.le_toInt
  have hup := v.toInt_lt
  unfold packMagnitude
  split <;> omega

/-- Setting the sign bit adds 64 to a byte that has it free. -/
theorem sign_or_ofNat (neg : Bool) {k : ℕ} (hk : k < 256) (hfree : k % 128 < 64) :
    (if neg then (0x40 : UInt8) else 0x00) ||| UInt8.ofNat k =
      UInt8.ofNat (k + if neg then 64 else 0) := by
  cases neg with
  | false => simp
  | true =>
    rw [← UInt8.toNat_inj, if_pos rfl, if_pos rfl, UInt8.toNat_or, UInt8.toNat_ofNat',
      UInt8.toNat_ofNat', Nat.mod_eq_of_lt hk, Nat.or_comm]
    have hor := or_0x40_eq_add hk hfree
    have hlt : k + 64 < 2 ^ 8 := by omega
    rw [Nat.mod_eq_of_lt hlt]
    exact hor

theorem or_0x80_of_lt_256 {n : ℕ} (h : n < 256) : n ||| 0x80 = n % 128 + 128 := by
  have hall : ∀ i : Fin 256, i.val ||| 128 = i.val % 128 + 128 := by decide +kernel
  exact hall ⟨n, h⟩

theorem and_0x3f_left (n : ℕ) : 0x3f &&& n = n % 64 := by
  rw [Nat.and_comm]
  exact Nat.and_two_pow_sub_one_eq_mod n 6

/-- What `ub_pack_16_value` leaves in an array of three bytes or more. -/
theorem ubPack16Value_eq (v : Int16) (a b c : UInt8) (rest : Bytes) :
    ubPack16Value v (a :: b :: c :: rest) =
      if packMagnitude v.toInt ≤ 63 then
        (1, UInt8.ofNat (packMagnitude v.toInt + if v.toInt < 0 then 64 else 0) :: b :: c :: rest)
      else if packMagnitude v.toInt ≤ 8191 then
        (2, UInt8.ofNat (packMagnitude v.toInt / 128 + if v.toInt < 0 then 64 else 0) ::
          UInt8.ofNat (packMagnitude v.toInt % 128) :: c :: rest)
      else
        (3, UInt8.ofNat (packMagnitude v.toInt / 16384 + 128 + if v.toInt < 0 then 64 else 0) ::
          UInt8.ofNat (packMagnitude v.toInt / 128 % 128 + 128) ::
          UInt8.ofNat (packMagnitude v.toInt % 128) :: rest) := by
  have hm := packMagnitude_lt v
  have h7f : ∀ k, k &&& 0x7f = k % 128 := fun k => Nat.and_two_pow_sub_one_eq_mod k 7
  have hff : ∀ k, k &&& 0xff = k % 256 := fun k => Nat.and_two_pow_sub_one_eq_mod k 8
  unfold ubPack16Value
  rw [addr16Magnitude_eq]
  generalize packMagnitude v.toInt = m at hm
  simp only [List.length_cons, Nat.succ_ne_zero, if_false, List.set_cons_zero, List.set_cons_succ,
    Nat.and_comm m 0x3f, and_0x3f_left, h7f, hff, Nat.shiftRight_eq_div_pow, Nat.reducePow]
  by_cases h1 : m ≤ 63
  · rw [if_pos h1, if_pos h1, sign_or_ofNat _ (by omega) (by omega), Nat.mod_eq_of_lt (by omega)]
    simp
  · rw [if_neg h1, if_neg h1]
    by_cases h2 : m ≤ 8191
    · rw [if_pos h2, if_pos h2, sign_or_ofNat _ (by omega) (by omega),
        Nat.mod_eq_of_lt (show m / 128 < 64 by omega)]
      simp
    · have hflag : m / 16384 % 64 ||| 0x80 = m / 16384 + 128 := by
        rw [or_0x80_of_lt_256 (by omega)]
        omega
      have hmid : m / 128 % 256 ||| 0x80 = m / 128 % 128 + 128 := by
        rw [or_0x80_of_lt_256 (by omega)]
        omega
      rw [if_neg h2, if_neg h2, hflag, hmid, sign_or_ofNat _ (by omega) (by omega)]
      simp

/-- The number of groups `pack_value` uses for a value of 16 bits. -/
theorem shortest_int16 {n m : ℕ} (h : Shortest true n m) (hm : m < 32768) :
    n = if m ≤ 63 then 1 else if m ≤ 8191 then 2 else 3 := by
  apply h.unique
  apply shortest_of_bounds
  · unfold Fits
    split
    · simp only [if_true]
      omega
    · split <;> simp only [if_true] <;> omega
  · unfold Fits
    split
    · exact .inl rfl
    · right
      split <;> simp only [if_true] <;> omega

/-- The encodings of one, two and three bytes. -/
theorem packedBytes_upto_three (sign : Bool) (m : ℕ) :
    packedBytes sign 1 m = [UInt8.ofNat (m % 128 + if sign then 64 else 0)] ∧
    packedBytes sign 2 m =
      [UInt8.ofNat (m / 128 % 128 + 128 + if sign then 64 else 0), UInt8.ofNat (m % 128)] ∧
    packedBytes sign 3 m =
      [UInt8.ofNat (m / 16384 % 128 + 128 + if sign then 64 else 0),
        UInt8.ofNat (m / 128 % 128 + 128), UInt8.ofNat (m % 128)] := by
  simp [packedBytes, packedByte, group, List.range_succ]

/-- Packing agrees for one and for three bytes, and for no value of two. -/
theorem packAgrees_iff (v : Int16) (arr : Bytes) (hroom : 3 ≤ arr.length) :
    PackAgrees v arr ↔ ¬ (64 ≤ packMagnitude v.toInt ∧ packMagnitude v.toInt ≤ 8191) := by
  obtain ⟨a, b, c, rest, rfl⟩ : ∃ a b c rest, arr = a :: b :: c :: rest := by
    match arr, hroom with
    | a :: b :: c :: rest, _ => exact ⟨a, b, c, rest, rfl⟩
  obtain ⟨n, hshort, hpack⟩ := packValue_eq true v.toInt (fun h => absurd h (by decide))
  have hm := packMagnitude_lt v
  have hn := shortest_int16 hshort hm
  have hunique : PackAgrees v (a :: b :: c :: rest) ↔
      ubPack16Value v (a :: b :: c :: rest) =
        (((packedBytes (decide (v.toInt < 0)) n (packMagnitude v.toInt)).length : ℤ),
          packedBytes (decide (v.toInt < 0)) n (packMagnitude v.toInt) ++
            (a :: b :: c :: rest).drop n) := by
    unfold PackAgrees
    rw [hpack]
    constructor
    · rintro ⟨e, he, hub⟩
      cases he
      simpa using hub
    · intro hub
      exact ⟨_, rfl, by simpa using hub⟩
  rw [hunique, ubPack16Value_eq]
  obtain ⟨hone, htwo, hthree⟩ := packedBytes_upto_three (decide (v.toInt < 0))
    (packMagnitude v.toInt)
  generalize packMagnitude v.toInt = m at *
  by_cases h1 : m ≤ 63
  · rw [if_pos h1] at hn ⊢
    subst hn
    rw [hone, Nat.mod_eq_of_lt (by omega)]
    simp only [decide_eq_true_eq, List.length_cons, List.length_nil, List.drop_succ_cons,
      List.drop_zero, List.cons_append, List.nil_append, zero_add, Nat.cast_one, true_iff]
    omega
  · rw [if_neg h1] at hn ⊢
    by_cases h2 : m ≤ 8191
    · -- the two first bytes differ in the continuation flag
      rw [if_pos h2] at hn ⊢
      subst hn
      rw [htwo]
      have hne : UInt8.ofNat (m / 128 + if v.toInt < 0 then 64 else 0) ≠
          UInt8.ofNat (m / 128 % 128 + 128 + if v.toInt < 0 then 64 else 0) := by
        intro heq
        have := congrArg UInt8.toNat heq
        simp only [UInt8.toNat_ofNat'] at this
        split at this <;> omega
      constructor
      · intro heq
        have hhead := congrArg (fun p : ℤ × Bytes => p.2.head?) heq
        simp only [List.head?_cons, List.cons_append, decide_eq_true_eq, Option.some.injEq]
          at hhead
        exact absurd hhead hne
      · intro hno
        omega
    · rw [if_neg h2] at hn ⊢
      subst hn
      rw [hthree, Nat.mod_eq_of_lt (show m / 16384 < 128 by omega)]
      simp only [decide_eq_true_eq, List.length_cons, List.length_nil, List.drop_succ_cons,
        List.drop_zero, List.cons_append, List.nil_append]
      simp only [zero_add, Nat.reduceAdd, Nat.cast_ofNat, true_iff]
      omega

/-! ## Unpacking -/

/-- The sign applied to a magnitude of 16 bits, in `int16_t` arithmetic. -/
theorem int16_signedValue (sign : Prop) [Decidable sign] {k : ℕ} (hk : k < 32768) :
    (if sign then -(Int16.ofInt k + 1) else Int16.ofInt k).toInt =
      signedValue (decide sign) k := by
  have hofInt : (Int16.ofInt (k : ℤ)).toInt = k :=
    Int16.toInt_ofInt_of_le (by omega) (by omega)
  unfold signedValue
  by_cases hs : sign
  · rw [if_pos hs, if_pos (decide_eq_true hs), Int16.toInt_neg, Int16.toInt_add, hofInt]
    simp only [Int16.reduceToInt, Int.bmod_def]
    omega
  · rw [if_neg hs, if_neg (by simpa using hs), hofInt]

/-- What is stored once the bytes are counted and their value is known. -/
theorem ubUnpack16Value_of_scan (dst : Int16) (buf : Bytes) (req value : ℕ)
    (hscan : scanReq buf 1 = .ok (req : ℤ)) (hvalue : addr16Value buf req = .ok value)
    (hlt : value < 32768) :
    ∃ w : Int16, ubUnpack16Value dst buf = ((req : ℤ), w) ∧
      w.toInt = signedValue (decide (64 ≤ (buf.getD 0 0).toNat % 128)) value := by
  have hbit : (buf.getD 0 0 &&& 0x40 ≠ 0) ↔ 64 ≤ (buf.getD 0 0).toNat % 128 := by
    rw [ne_eq, and_0x40_eq_zero_iff, Nat.not_lt]
  refine ⟨if buf.getD 0 0 &&& 0x40 ≠ 0 then -(Int16.ofInt value + 1) else Int16.ofInt value,
    ?_, ?_⟩
  · simp only [ubUnpack16Value, hscan, hvalue]
  · rw [int16_signedValue _ hlt]
    simp only [hbit]

/-- An address of one byte is read by both sides alike. -/
theorem ubUnpack16Value_one (dst : Int16) (b : UInt8) (rest : Bytes) (hb : b.toNat < 128) :
    ∃ w : Int16, ubUnpack16Value dst (b :: rest) = (1, w) ∧
      unpackValue true (b :: rest) 0 = .ok (w.toInt, 1) := by
  have hflag : b &&& 0x80 = 0 := (and_0x80_eq_zero_iff b).mpr hb
  have hused : usedBytes ((b :: rest).drop 0) 1 = .ok 1 := by simp [usedBytes, hflag]
  obtain ⟨w, hub, hw⟩ := ubUnpack16Value_of_scan dst (b :: rest) 1 (b.toNat % 64)
    (by simp [scanReq, hflag]) (by simp [addr16Value, and_0x3f_left])
    (by omega)
  refine ⟨w, hub, ?_⟩
  rw [unpackValue_digits hused, hw]
  simp [digitOf]

/-- An address of two bytes is read by both sides alike. -/
theorem ubUnpack16Value_two (dst : Int16) (b c : UInt8) (rest : Bytes)
    (hb : 128 ≤ b.toNat) (hc : c.toNat < 128) :
    ∃ w : Int16, ubUnpack16Value dst (b :: c :: rest) = (2, w) ∧
      unpackValue true (b :: c :: rest) 0 = .ok (w.toInt, 2) := by
  have hflag : ¬ b &&& 0x80 = 0 := by
    rw [and_0x80_eq_zero_iff]
    omega
  have hlast : c &&& 0x80 = 0 := (and_0x80_eq_zero_iff c).mpr hc
  have hused : usedBytes ((b :: c :: rest).drop 0) 1 = .ok 2 := by
    simp [usedBytes, hflag, hlast]
  have hvalue : ((0x3f &&& b.toNat) <<< 7) ||| c.toNat = b.toNat % 64 * 128 + c.toNat := by
    rw [and_0x3f_left, Nat.shiftLeft_eq, Nat.mul_comm, ← Nat.two_pow_add_eq_or_of_lt hc,
      Nat.mul_comm]
  obtain ⟨w, hub, hw⟩ := ubUnpack16Value_of_scan dst (b :: c :: rest) 2
    (b.toNat % 64 * 128 + c.toNat) (by simp [scanReq, hflag, hlast])
    (by simp [addr16Value, hvalue]) (by omega)
  refine ⟨w, hub, ?_⟩
  rw [unpackValue_digits hused, hw]
  simp [digitOf, List.range_succ, Nat.mod_eq_of_lt hc]

/-- Two flagged bytes, or one at the end of the buffer, are an error on the C side. -/
theorem ubUnpack16Value_long (dst : Int16) (b : UInt8) (rest : Bytes)
    (hb : 128 ≤ b.toNat) (hrest : ∀ c tail, rest = c :: tail → 128 ≤ c.toNat) :
    (ubUnpack16Value dst (b :: rest)).1 ≤ 0 := by
  have hflag : ∀ {x : UInt8}, 128 ≤ x.toNat → ¬ x &&& 0x80 = 0 := by
    intro x hx
    rw [and_0x80_eq_zero_iff]
    omega
  cases rest with
  | nil => simp [ubUnpack16Value, scanReq, hflag hb, ELNRNG]
  | cons c tail =>
    have hc := hflag (hrest c tail rfl)
    cases tail with
    | nil => simp [ubUnpack16Value, scanReq, hflag hb, hc, ELNRNG]
    | cons d tail => simp [ubUnpack16Value, scanReq, hflag hb, hc, EMSGSIZE]

/-- The buffers on which both sides read the same short address, and the others. -/
theorem unpack_cases (dst : Int16) {buf : Bytes} (hbuf : buf ≠ []) :
    (∃ (w : Int16) (used : ℕ), 1 ≤ used ∧ used ≤ 2 ∧ ubUnpack16Value dst buf = ((used : ℤ), w) ∧
        unpackValue true buf 0 = .ok (w.toInt, used)) ∨
      ((ubUnpack16Value dst buf).1 ≤ 0 ∧
        ∀ v used, unpackValue true buf 0 = .ok (v, used) → 3 ≤ used) := by
  cases buf with
  | nil => exact absurd rfl hbuf
  | cons b rest =>
    by_cases hb : b.toNat < 128
    · obtain ⟨w, hc, hr⟩ := ubUnpack16Value_one dst b rest hb
      exact .inl ⟨w, 1, le_rfl, by norm_num, hc, hr⟩
    · by_cases htwo : ∃ c tail, rest = c :: tail ∧ c.toNat < 128
      · obtain ⟨c, tail, rfl, hc⟩ := htwo
        obtain ⟨w, hc, hr⟩ := ubUnpack16Value_two dst b c tail (by omega) hc
        exact .inl ⟨w, 2, by norm_num, le_rfl, hc, hr⟩
      · have hrest : ∀ c tail, rest = c :: tail → 128 ≤ c.toNat := by
          intro c tail hct
          by_contra hc
          exact htwo ⟨c, tail, hct, by omega⟩
        refine .inr ⟨ubUnpack16Value_long dst b rest (by omega) hrest, ?_⟩
        intro v used hok
        -- the Rust scan passes the two flagged bytes as well
        have hused := usedBytes_of_unpackValue hok
        have hflag : ¬ b &&& 0x80 = 0 := by
          rw [and_0x80_eq_zero_iff]
          exact hb
        cases rest with
        | nil => simp [usedBytes, hflag] at hused
        | cons c tail =>
          have hc : ¬ c &&& 0x80 = 0 := by
            rw [and_0x80_eq_zero_iff, Nat.not_lt]
            exact hrest c tail rfl
          simp only [List.drop_zero, usedBytes, hflag, hc, if_false] at hused
          obtain ⟨flagged, last, post, -, hlen, -, -⟩ := usedBytes_eq_ok hused
          omega

/-- Unpacking agrees exactly where no value of 16 bits is written with three bytes or more. -/
theorem unpackAgrees_iff (dst : Int16) (buf : Bytes) (hbuf : buf ≠ []) :
    UnpackAgrees dst buf ↔ ¬ LongInt16 buf := by
  constructor
  · rintro ⟨hagree, -⟩ ⟨sign, n, m, post, hn, hfit, hm, rfl⟩
    have hok : unpackValue true (packedBytes sign n m ++ post) 0 =
        .ok (signedValue sign m, n) :=
      unpackValue_packedBytes hfit (fun _ => rfl) [] post
    have hrange : -32768 ≤ signedValue sign m ∧ signedValue sign m ≤ 32767 := by
      unfold signedValue
      split <;> omega
    obtain ⟨hcount, -⟩ := hagree _ _ hok hrange.1 hrange.2
    rcases unpack_cases dst hbuf with ⟨w, used, -, hused, hub, -⟩ | ⟨hub, -⟩
    · rw [hub] at hcount
      omega
    · omega
  · intro hlong
    rcases unpack_cases dst hbuf with ⟨w, used, -, hused, hub, hok⟩ | ⟨hub, hthree⟩
    · constructor
      · intro v used' hok' _ _
        rw [hok, Except.ok.injEq, Prod.mk.injEq] at hok'
        obtain ⟨rfl, rfl⟩ := hok'
        rw [hub]
        exact ⟨rfl, rfl⟩
      · intro _
        exact ⟨used, by rw [hub, hok]⟩
    · constructor
      · intro v used hok hlow hup
        exfalso
        obtain ⟨sign, m, -, hfit, hv, post, hpacked⟩ := unpackValue_eq_ok hok
        apply hlong
        refine ⟨sign, used, m, post, hthree v used hok, hfit, ?_, hpacked⟩
        unfold signedValue at hv
        split at hv <;> omega
      · intro hpos
        omega

/-- **The two codecs.**  Packing agrees for every value but those of two bytes (magnitudes 64
to 8191), unpacking on every buffer but those that start with three or more bytes of a value
of 16 bits.
SOURCE: addr16.c:4-107, tools.rs:220-315 -/
theorem addr16Agrees_iff (v : Int16) (arr : List UInt8) (harr : 3 ≤ arr.length) (dst : Int16)
    (buf : List UInt8) (hbuf : buf ≠ []) :
    (PackAgrees v arr ↔ ¬ (64 ≤ packMagnitude v.toInt ∧ packMagnitude v.toInt ≤ 8191)) ∧
      (UnpackAgrees dst buf ↔ ¬ LongInt16 buf) :=
  ⟨packAgrees_iff v arr harr, unpackAgrees_iff dst buf hbuf⟩

/-- The address 5 is written, and a negative one of two bytes is read, as in the Rust tools. -/
theorem addr16Agrees_short :
    (3 ≤ ([0, 0, 0] : List UInt8).length ∧ PackAgrees 5 [0, 0, 0]) ∧
    (([0xc1, 0x00] : List UInt8) ≠ [] ∧ UnpackAgrees 0 [0xc1, 0x00]) := by
  obtain ⟨hpack, hunpack⟩ :=
    addr16Agrees_iff 5 [0, 0, 0] (by decide) 0 [0xc1, 0x00] (by decide)
  refine ⟨⟨by decide, hpack.mpr (by decide)⟩, by decide, hunpack.mpr ?_⟩
  rintro ⟨sign, n, m, post, hn, -, -, hbuf⟩
  have hlen := congrArg List.length hbuf
  simp at hlen
  omega

/-- The address 128 of the documentation's table, and the value 16384 as the packers of both
sides write it. -/
theorem addr16_disagree :
    packValue true 128 = .ok [0x81, 0x00] ∧ ubPack16Value 128 [0, 0, 0] = (2, [0x01, 0x00, 0]) ∧
    ¬ PackAgrees 128 [0, 0, 0] ∧
    unpackValue true [0x81, 0x80, 0x00] 0 = .ok (16384, 3) ∧
    ubUnpack16Value 0 [0x81, 0x80, 0x00] = (-90, 0) ∧
    ¬ UnpackAgrees 0 [0x81, 0x80, 0x00] := by
  have hpack : packValue true 128 = .ok [0x81, 0x00] := by decide +kernel
  have hub : ubPack16Value 128 [0, 0, 0] = (2, [0x01, 0x00, 0]) := by decide
  have hunpack : unpackValue true [0x81, 0x80, 0x00] 0 = .ok (16384, 3) := by decide
  have hubUnpack : ubUnpack16Value 0 [0x81, 0x80, 0x00] = (-90, 0) := by decide
  refine ⟨hpack, hub, ?_, hunpack, hubUnpack, ?_⟩
  · rintro ⟨e, he, hagree⟩
    rw [show (128 : Int16).toInt = 128 from rfl, hpack] at he
    cases he
    exact absurd hagree (by decide)
  · rintro ⟨hagree, -⟩
    have hcount := (hagree 16384 3 hunpack (by norm_num) (by norm_num)).1
    exact absurd hcount (by decide)

end Uartbus.Analysis
