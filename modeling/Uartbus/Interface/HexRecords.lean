import Uartbus.Lib.Blocks
import Uartbus.Model.Ihex

/-!
# The Intel HEX format

Records as the format has them: the text of a line is a colon and the hexadecimal digits of the
bytes `LL AH AL TT D1 .. Dn CC`, where `LL` is the number `n` of data bytes and `CC` makes the sum
of all bytes divisible by 256.  Digits are of either case.

The program of a file is in its data records up to the end-of-file record.  The address of a record
is counted from the base that the last record of type 02 or 04 before it has set.
-/

set_option autoImplicit false

namespace Uartbus.Interface

open Lib Model

/-! ## The text of a record -/

/-- `c` is the digit of `x`, in upper or lower case. -/
def HexDigit (c : Char) (x : ℕ) : Prop :=
  "0123456789ABCDEF".toList[x]? = some c ∨ "0123456789abcdef".toList[x]? = some c

/-- The digits of a list of bytes, two for each. -/
inductive HexDigits : Text → Bytes → Prop where
  | nil : HexDigits [] []
  | cons {high low : Char} {byte : UInt8} {text : Text} {bytes : Bytes}
      (hhigh : HexDigit high (byte.toNat / 16)) (hlow : HexDigit low (byte.toNat % 16))
      (hrest : HexDigits text bytes) : HexDigits (high :: low :: text) (byte :: bytes)

/-- The bytes of a record with `ll` as its length byte; the number of data bytes is left open. -/
def RecordBytes (ll : UInt8) (data bytes : Bytes) : Prop :=
  (∃ ah al tt cc, bytes = ll :: ah :: al :: tt :: (data ++ [cc])) ∧
    256 ∣ (bytes.map UInt8.toNat).sum

/-- The text of a record. -/
def IsRecord (text : Text) : Prop :=
  ∃ hex bytes ll data, text = ':' :: hex ∧ HexDigits hex bytes ∧ RecordBytes ll data bytes ∧
    data.length = ll.toNat

/-- A record but for its length byte, which is not the number of its data bytes. -/
def MiscountedRecord (text : Text) : Prop :=
  ∃ hex bytes ll data, text = ':' :: hex ∧ HexDigits hex bytes ∧ RecordBytes ll data bytes ∧
    data.length ≠ ll.toNat

/-! ## The records of a file -/

/-- The data records of a file, by the addresses that stand in them. -/
def dataRecords : List IntelHexLine → List (Block UInt8)
  | [] => []
  | line :: lines =>
    if line.recordType = .endOfFile then []
    else if line.recordType = .data then ⟨line.address.toNat, line.data⟩ :: dataRecords lines
    else dataRecords lines

/-- A big-endian number. -/
def bigEndian (data : Bytes) : ℕ := data.foldl (fun value byte => 256 * value + byte.toNat) 0

/-- The base address behind a record: 02 is the extended segment address, in units of 16 bytes, and
04 the extended linear address, the upper half of a 32 bit address. -/
def nextBase (base : ℕ) (line : IntelHexLine) : ℕ :=
  if line.recordType.asU8 = 2 then 16 * bigEndian line.data
  else if line.recordType.asU8 = 4 then 2 ^ 16 * bigEndian line.data
  else base

/-- The data records with the base that holds for each. -/
def recordsWithBase : ℕ → List IntelHexLine → List (ℕ × Block UInt8)
  | _, [] => []
  | base, line :: lines =>
    if line.recordType = .endOfFile then []
    else if line.recordType = .data then
      (base, ⟨line.address.toNat, line.data⟩) :: recordsWithBase base lines
    else recordsWithBase (nextBase base line) lines

/-- The data records at their effective addresses. -/
def effectiveRecords (lines : List IntelHexLine) : List (Block UInt8) :=
  (recordsWithBase 0 lines).map fun p => ⟨p.1 + p.2.address, p.2.data⟩

end Uartbus.Interface
