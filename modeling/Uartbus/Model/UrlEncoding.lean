import Uartbus.Model.Text

/-!
# The encoding of paths in the list file

`url_encode` and `url_decode` (rpc/ftp.rs).  Both work on the bytes of the text.
-/

set_option autoImplicit false

namespace Uartbus.Model

open Lib

/-- The bytes that stand for themselves.
SOURCE: rpc/ftp.rs:34 -/
def isUnreserved (b : UInt8) : Bool :=
  (0x61 ≤ b && b ≤ 0x7A) || (0x41 ≤ b && b ≤ 0x5A) || (0x30 ≤ b && b ≤ 0x39) ||
    b = 0x2E || b = 0x2D || b = 0x2A || b = 0x5F

/-- SOURCE: rpc/ftp.rs:33-39 -/
def urlEncodeByte (b : UInt8) : Text :=
  if isUnreserved b then [Char.ofNat b.toNat]
  else if b = 0x20 then ['+']
  else ['%', upperHexDigit (b.toNat / 16), upperHexDigit (b.toNat % 16)]

/-- SOURCE: rpc/ftp.rs:30-42 -/
def urlEncode (text : Text) : Text := (utf8Bytes text).flatMap urlEncodeByte

/-- `str::is_char_boundary` at the place these bytes of a text begin. -/
def isCharBoundary : Bytes → Bool
  | [] => true
  | b :: _ => !isContinuation b

/-- The digit a byte stands for. -/
def hexDigitValue (b : UInt8) : Option UInt8 :=
  (toDigit16 (Char.ofNat b.toNat)).map UInt8.ofNat

/-- `u8::from_str_radix(_, 16)` of two bytes; a plus sign may come first. -/
def fromStrRadix16 (high low : UInt8) : Option UInt8 :=
  if high = 0x2B then hexDigitValue low
  else do
    let h ← hexDigitValue high
    let l ← hexDigitValue low
    pure (16 * h + l)

/-- The loop over the bytes.
SOURCE: rpc/ftp.rs:48-66 -/
def urlDecodeBytes : Bytes → Bytes
  | [] => []
  | b :: high :: low :: rest =>
    if b = 0x2B then 0x20 :: urlDecodeBytes (high :: low :: rest)
    else if b = 0x25 ∧ isCharBoundary (high :: low :: rest) ∧ isCharBoundary rest then
      match fromStrRadix16 high low with
      | some value => value :: urlDecodeBytes rest
      | none => 0x25 :: urlDecodeBytes (high :: low :: rest)
    else b :: urlDecodeBytes (high :: low :: rest)
  | b :: rest => (if b = 0x2B then 0x20 else b) :: urlDecodeBytes rest

/-- SOURCE: rpc/ftp.rs:44-68 -/
def urlDecode (text : Text) : Text := utf8Lossy (urlDecodeBytes (utf8Bytes text))

end Uartbus.Model
