import Mathlib.Data.List.Induction
import Uartbus.Interface.Checksum
import Uartbus.Model.Crc8

/-!
# One checksum

The loop body of the three `crc8` functions adds eight constants, one for each set bit of a
byte.  They are the remainders of the eight single bits, so that a round is eight shifts of the
Dallas/Maxim register (`crc8Round_eq`) and the functions compute its remainder (`crc8_eq`).
With this, what is known about the register holds of the packets the tools accept
(`crc8_one_function`, `corruption_rejected`).
-/

set_option autoImplicit false

namespace Uartbus.Analysis

open Lib Interface Model

variable {data : Bytes} {length : UInt8}

/-! ## The loop body -/

/-- The eight constants are the remainders of the bits: all 256 bytes. -/
theorem crc8Round_zero (v : UInt8) :
    (crc8Round 0 v).toBitVec =
      remainder dallasFeedback v.toBitVec (List.replicate 8 false) := by
  have hall : ∀ i : Fin 256, (crc8Round 0 (UInt8.ofNat i.val)).toBitVec =
      remainder dallasFeedback (UInt8.ofNat i.val).toBitVec (List.replicate 8 false) := by
    decide +kernel
  simpa using hall ⟨v.toNat, v.toNat_lt⟩

theorem crc8Round_eq (crc byte : UInt8) :
    (crc8Round crc byte).toBitVec =
      remainder dallasFeedback (byte.toBitVec ^^^ crc.toBitVec) (List.replicate 8 false) := by
  have hone : crc8Round crc byte = crc8Round 0 (byte ^^^ crc) := by
    simp only [crc8Round, UInt8.xor_zero]
  rw [hone, crc8Round_zero, UInt8.toBitVec_xor]

/-- **The bit-serial checksum.** -/
theorem crc8_eq (data : Bytes) : (crc8 data).toBitVec = dallasCrc8 data := by
  have hfold : crc8 data = data.foldl crc8Round 0 := by
    rw [crc8, crc8Prefix, List.take_length]
  rw [hfold]
  induction data using List.reverseRecOn with
  | nil => rfl
  | append_singleton data byte ih =>
    have hrest := ih (by rw [crc8, crc8Prefix, List.take_length])
    rw [List.foldl_append, List.foldl_cons, List.foldl_nil, crc8Round_eq, hrest,
      dallasCrc8_concat]

/-! ## The C functions -/

/-- The loop with its eight bit counter goes over the first `length` bytes. -/
theorem crc8Loop_eq (hlen : length.toNat ≤ data.length) (i crc : UInt8) :
    crc8Loop data length i crc = ((data.take length.toNat).drop i.toNat).foldl crc8Round crc := by
  induction i, crc using crc8Loop.induct data length with
  | case1 i crc hlt ih =>
    have hi := UInt8.lt_iff_toNat_lt.mp hlt
    have hlt256 := length.toNat_lt
    have hnext : (i + 1).toNat = i.toNat + 1 := by
      rw [UInt8.toNat_add, show (1 : UInt8).toNat = 1 from rfl, Nat.mod_eq_of_lt (by omega)]
    have htake : i.toNat < (data.take length.toNat).length := by
      rw [List.length_take]
      omega
    have hbyte : data.getD i.toNat 0 = (data.take length.toNat)[i.toNat] := by
      rw [List.getElem_take, List.getD_eq_getElem?_getD, List.getElem?_eq_getElem (by omega)]
      rfl
    rw [crc8Loop, if_pos hlt, ih, hnext, List.drop_eq_getElem_cons htake, List.foldl_cons, hbyte]
  | case2 i crc hge =>
    have hi : length.toNat ≤ i.toNat := by
      by_contra hlt
      exact hge (UInt8.lt_iff_toNat_lt.mpr (by omega))
    rw [crc8Loop, if_neg hge, List.drop_of_length_le (by rw [List.length_take]; omega),
      List.foldl_nil]

/-- What the device's packet decoder calls is this loop. -/
theorem crc8Loop_eq_ubCrc8 (hlen : length.toNat ≤ data.length) :
    crc8Loop data length 0 0 = ubCrc8 data length :=
  crc8Loop_eq hlen 0 0

/-- The C functions on a whole string of at most 255 bytes. -/
theorem crc8Loop_whole (hlen : data.length ≤ 255) :
    crc8Loop data (UInt8.ofNat data.length) 0 0 = crc8 data := by
  have hlength : (UInt8.ofNat data.length).toNat = data.length := by
    rw [UInt8.toNat_ofNat', Nat.mod_eq_of_lt (by omega)]
  rw [crc8Loop_eq_ubCrc8 (by rw [hlength]), ubCrc8, hlength]
  rfl

/-! ## Valid packets -/

/-- A packet is valid when its remainder is zero. -/
theorem isPacketCrc8Valid_concat (data : Bytes) (b : UInt8) :
    isPacketCrc8Valid (data ++ [b]) = true ↔ dallasCrc8 (data ++ [b]) = 0 := by
  have hcrc : crc8Prefix (data ++ [b]) ((data ++ [b]).length - 1) = crc8 data := by
    rw [crc8, crc8Prefix, crc8Prefix, List.take_length, List.length_append, List.length_singleton,
      Nat.add_sub_cancel, List.take_left]
  have hlast : (data ++ [b]).getD ((data ++ [b]).length - 1) 0 = b := by simp
  rw [dallasCrc8_concat_eq_zero_iff, ← crc8_eq, UInt8.toBitVec_inj, isPacketCrc8Valid, hcrc, hlast,
    Bool.and_eq_true, beq_iff_eq]
  constructor
  · rintro ⟨-, heq⟩
    exact heq.symm
  · intro heq
    exact ⟨by simp, heq.symm⟩

theorem isPacketCrc8Valid_iff (data : Bytes) :
    isPacketCrc8Valid data = true ↔ data ≠ [] ∧ dallasCrc8 data = 0 := by
  induction data using List.reverseRecOn with
  | nil => simp [isPacketCrc8Valid]
  | append_singleton data b _ => simpa using isPacketCrc8Valid_concat data b

/-- **One checksum.**  The Rust function is the bit-serial Dallas/Maxim checksum, the two C
functions give the same on every string their length argument can count, and a string followed
by its checksum is a valid packet with the checksum zero.
SOURCE: tools.rs:52-89, ub.c:108-138, direct.c:12-45, packet.rs:116-119 -/
theorem crc8_one_function (d : List UInt8) :
    (crc8 d).toBitVec = dallasCrc8 d ∧
      (d.length ≤ 255 → linkCrc8 d (UInt8.ofNat d.length) = crc8 d ∧
        directCrc8 d (UInt8.ofNat d.length) = crc8 d) ∧
      isPacketCrc8Valid (d ++ [crc8 d]) = true ∧ crc8 (d ++ [crc8 d]) = 0 := by
  have hzero : dallasCrc8 (d ++ [crc8 d]) = 0 :=
    (dallasCrc8_concat_eq_zero_iff d (crc8 d)).mpr (crc8_eq d)
  refine ⟨crc8_eq d, fun hlen => ?_, (isPacketCrc8Valid_concat d (crc8 d)).mpr hzero, ?_⟩
  · exact ⟨crc8Loop_whole hlen, crc8Loop_whole hlen⟩
  · apply UInt8.toBitVec_inj.mp
    rw [crc8_eq, hzero]
    rfl

/-- The bytes 5, 63, 1 and 0, whose checksum is 0xc4. -/
theorem crc8_one_function_ping :
    linkCrc8 [5, 63, 1, 0] 4 = crc8 [5, 63, 1, 0] ∧ crc8 [5, 63, 1, 0, crc8 [5, 63, 1, 0]] = 0 :=
  have h := crc8_one_function [5, 63, 1, 0]
  ⟨(h.2.1 (by decide)).1, h.2.2.2⟩

/-- **Corrupted packets are rejected** when an odd number of bits is flipped, or when all
flipped bits lie within eight that are transmitted one after another.
SOURCE: tools.rs:52-89, 317-327 -/
theorem corruption_rejected (packet other : List UInt8)
    (hvalid : isPacketCrc8Valid packet = true) (hlen : other.length = packet.length)
    (herror : Odd ((flippedBits packet other).count true) ∨
      (other ≠ packet ∧ Burst 8 (flippedBits packet other))) :
    isPacketCrc8Valid other = false := by
  obtain ⟨-, hzero⟩ := (isPacketCrc8Valid_iff packet).mp hvalid
  have hdetected : dallasCrc8 other ≠ 0 := by
    apply dallasCrc8_detects hlen.symm hzero
    cases herror with
    | inl hodd => exact .inl hodd
    | inr hburst => exact .inr ⟨hburst.1.symm, hburst.2⟩
  rw [← Bool.not_eq_true, isPacketCrc8Valid_iff, not_and]
  exact fun _ => hdetected

/-- Three flipped bits in three bytes of a packet. -/
theorem corruption_rejected_three_bits :
    isPacketCrc8Valid [5, 63, 1, 0, crc8 [5, 63, 1, 0]] = true ∧
      isPacketCrc8Valid [4, 127, 1, 8, crc8 [5, 63, 1, 0]] = false :=
  ⟨by decide, corruption_rejected [5, 63, 1, 0, crc8 [5, 63, 1, 0]] _ (by decide) rfl
    (.inl (by decide))⟩

end Uartbus.Analysis
