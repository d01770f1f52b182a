import Uartbus.Lib.Loop
import Uartbus.Model.UrlEncoding

/-!
# Encoded paths can be read back

Encoded text is ASCII without line breaks, and decoding gives back the text.  The round trip goes
byte by byte: in front of ASCII, what `urlDecodeBytes` makes of an encoded byte is that byte.
-/

set_option autoImplicit false

namespace Uartbus.Analysis

open Lib Model

variable {rest : Bytes} {n : ℕ}

/-! ## The characters of encoded text -/

/-- A character of encoded text: visible ASCII. -/
def IsPrintable (c : Char) : Prop := 0x20 < c.toNat ∧ c.toNat < 0x7F

theorem toNat_ofNat_ascii (h : n < 128) : (Char.ofNat n).toNat = n := by
  have hvalid : n.isValidChar := .inl (by omega)
  rw [Char.ofNat, dif_pos hvalid]
  rfl

theorem isPrintable_ofNat (hlow : 0x20 < n) (hhigh : n < 0x7F) : IsPrintable (Char.ofNat n) := by
  unfold IsPrintable
  rw [toNat_ofNat_ascii (by omega)]
  exact ⟨hlow, hhigh⟩

theorem isUnreserved_bounds (b : UInt8) :
    isUnreserved b = true → 0x20 < b.toNat ∧ b.toNat < 0x7F :=
  forall_uint8 (P := fun b => isUnreserved b = true → 0x20 < b.toNat ∧ b.toNat < 0x7F)
    (by decide +kernel) b

theorem upperHexDigit_printable (h : n < 16) : IsPrintable (upperHexDigit n) := by
  unfold upperHexDigit
  split <;> exact isPrintable_ofNat (by omega) (by omega)

theorem urlEncodeByte_printable (b : UInt8) : ∀ c ∈ urlEncodeByte b, IsPrintable c := by
  have hb := b.toNat_lt
  unfold urlEncodeByte
  split
  next hself =>
    obtain ⟨hlow, hhigh⟩ := isUnreserved_bounds b hself
    exact List.forall_mem_singleton.mpr (isPrintable_ofNat hlow hhigh)
  next =>
    split
    · exact List.forall_mem_singleton.mpr (isPrintable_ofNat (n := 0x2B) (by omega) (by omega))
    · rw [List.forall_mem_cons, List.forall_mem_cons, List.forall_mem_singleton]
      exact ⟨isPrintable_ofNat (n := 0x25) (by omega) (by omega),
        upperHexDigit_printable (by omega), upperHexDigit_printable (by omega)⟩

theorem urlEncode_printable (text : Text) : ∀ c ∈ urlEncode text, IsPrintable c := by
  intro c hc
  obtain ⟨b, -, hb⟩ := List.mem_flatMap.mp hc
  exact urlEncodeByte_printable b c hb

/-! ## The round trip -/

/-- The bytes of an encoded byte. -/
def encodedByte (b : UInt8) : Bytes := (urlEncodeByte b).map fun c => UInt8.ofNat c.toNat

theorem utf8Bytes_urlEncode (text : Text) :
    utf8Bytes (urlEncode text) = (utf8Bytes text).flatMap encodedByte := by
  have hascii : ∀ c ∈ urlEncode text, c.toNat < 128 := fun c hc =>
    Nat.lt_succ_of_lt (urlEncode_printable text c hc).2
  rw [utf8Bytes_ascii hascii, urlEncode, List.map_flatMap]
  rfl

theorem encodedByte_ascii (b : UInt8) : ∀ e ∈ encodedByte b, e.toNat < 0x80 := by
  intro e he
  obtain ⟨c, hc, rfl⟩ := List.mem_map.mp he
  have hhigh := (urlEncodeByte_printable b c hc).2
  rw [UInt8.toNat_ofNat_of_lt' (Nat.lt_trans hhigh (by decide))]
  omega

/-- A byte that stands for itself is no sign of the encoding. -/
theorem isUnreserved_ne (b : UInt8) : isUnreserved b = true → b ≠ 0x2B ∧ b ≠ 0x25 :=
  forall_uint8 (P := fun b => isUnreserved b = true → b ≠ 0x2B ∧ b ≠ 0x25) (by decide +kernel) b

/-- The byte of a digit. -/
def digitByte (n : ℕ) : UInt8 := UInt8.ofNat (upperHexDigit n).toNat

theorem fromStrRadix16_digits (b : UInt8) :
    isContinuation (digitByte (b.toNat / 16)) = false ∧
      fromStrRadix16 (digitByte (b.toNat / 16)) (digitByte (b.toNat % 16)) = some b :=
  forall_uint8 (P := fun b => isContinuation (digitByte (b.toNat / 16)) = false ∧
    fromStrRadix16 (digitByte (b.toNat / 16)) (digitByte (b.toNat % 16)) = some b)
    (by decide +kernel) b

/-- A byte that is neither a plus nor a percent sign. -/
theorem urlDecodeBytes_plain {b : UInt8} (hplus : b ≠ 0x2B) (hpercent : b ≠ 0x25)
    (rest : Bytes) : urlDecodeBytes (b :: rest) = b :: urlDecodeBytes rest := by
  have hnot : ∀ {p q : Prop}, ¬ (b = 0x25 ∧ p ∧ q) := fun h => hpercent h.1
  match rest with
  | [] | [_] => simp [urlDecodeBytes, hplus]
  | high :: low :: rest => rw [urlDecodeBytes, if_neg hplus, if_neg hnot]

theorem urlDecodeBytes_plus (rest : Bytes) :
    urlDecodeBytes (0x2B :: rest) = 0x20 :: urlDecodeBytes rest := by
  match rest with
  | [] | [_] => simp [urlDecodeBytes]
  | high :: low :: rest => rw [urlDecodeBytes, if_pos rfl]

theorem urlDecodeBytes_percent {high low value : UInt8} (hhigh : isContinuation high = false)
    (hrest : isCharBoundary rest = true) (hvalue : fromStrRadix16 high low = some value) :
    urlDecodeBytes (0x25 :: high :: low :: rest) = value :: urlDecodeBytes rest := by
  have hboundary : isCharBoundary (high :: low :: rest) = true := by
    rw [isCharBoundary, hhigh]
    rfl
  rw [urlDecodeBytes, if_neg (by decide), if_pos ⟨rfl, hboundary, hrest⟩, hvalue]

/-- One encoded byte in front of others. -/
theorem urlDecodeBytes_encodedByte (b : UInt8) (hrest : isCharBoundary rest = true) :
    urlDecodeBytes (encodedByte b ++ rest) = b :: urlDecodeBytes rest := by
  unfold encodedByte urlEncodeByte
  split
  next hself =>
    obtain ⟨hplus, hpercent⟩ := isUnreserved_ne b hself
    have hascii : b.toNat < 128 := Nat.lt_succ_of_lt (isUnreserved_bounds b hself).2
    rw [List.map_singleton, toNat_ofNat_ascii hascii, UInt8.ofNat_toNat]
    exact urlDecodeBytes_plain hplus hpercent rest
  next =>
    split
    next hspace =>
      rw [hspace]
      exact urlDecodeBytes_plus rest
    next =>
      obtain ⟨hhigh, hvalue⟩ := fromStrRadix16_digits b
      exact urlDecodeBytes_percent hhigh hrest hvalue

/-- Encoded bytes begin with a character. -/
theorem isCharBoundary_encoded (bytes : Bytes) :
    isCharBoundary (bytes.flatMap encodedByte) = true := by
  cases hbytes : bytes.flatMap encodedByte with
  | nil => rfl
  | cons e rest =>
    obtain ⟨b, -, he⟩ := List.mem_flatMap.mp (hbytes ▸ List.mem_cons_self :
      e ∈ bytes.flatMap encodedByte)
    have hascii : ¬ 0x80 ≤ e := by
      exact Nat.not_le.mpr (encodedByte_ascii b e he)
    simp [isCharBoundary, isContinuation, hascii]

theorem urlDecodeBytes_encoded (bytes : Bytes) :
    urlDecodeBytes (bytes.flatMap encodedByte) = bytes := by
  induction bytes with
  | nil => rfl
  | cons b bytes ih =>
    rw [List.flatMap_cons, urlDecodeBytes_encodedByte b (isCharBoundary_encoded bytes), ih]

/-- **Every text can be read back from its encoding.** -/
theorem urlDecode_urlEncode (text : Text) : urlDecode (urlEncode text) = text := by
  rw [urlDecode, utf8Bytes_urlEncode, urlDecodeBytes_encoded, utf8Lossy_utf8Bytes]

example : urlEncode ['/', ' ', '%'] = ['%', '2', 'F', '+', '%', '2', '5'] := by decide

end Uartbus.Analysis
