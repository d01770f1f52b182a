import Uartbus.Lib.Bytes
import Mathlib.Data.Nat.Digits.Defs

/-!
# The variable-length integer code of the Rust tools

The packing half of `tools.rs`: a signed or unsigned integer of any size is written as
seven bit groups, most significant group first, every byte but the last with bit 7 set,
and in the signed mode bit 6 of the first byte is the sign (a negative value is stored as
`-value - 1`).

The encoder works on the big-endian bytes of the magnitude and regroups them from the
least significant end; `packStep` is one round of its loop, with the same `offset` and
`index` counters.  Indexes are `usize`/`isize` in the source and `ℕ`/`ℤ` here: the sums
that the source guards with `checked_add` cannot exceed a slice length without failing the
bound check that follows.
-/

set_option autoImplicit false

namespace Uartbus.Model

/-- SOURCE: tools.rs:8-12 -/
inductive PackError where
  | negativeUnsignedValue
  | startIndexOutOfBounds
  | destinationTooSmall (required : ℕ)
  deriving DecidableEq, Repr

/-- SOURCE: tools.rs:15-17 -/
inductive UnpackError where
  | incompleteValue
  deriving DecidableEq, Repr

/-- The big-endian bytes of a natural number as `num_bigint` gives them: zero is one zero
byte, any other number has no leading zero. -/
def toBytesBe (n : ℕ) : Bytes :=
  if n = 0 then [0] else (Nat.digits 256 n).reverse.map UInt8.ofNat

/-- SOURCE: tools.rs:188-193 -/
def stripLeadingZero (bytes : Bytes) : Bytes :=
  if bytes.length > 1 ∧ bytes.head? = some 0 then bytes.tail else bytes

/-- The sign flag (`none` in the unsigned mode) and the magnitude bytes of a value.
SOURCE: tools.rs:168-186 -/
def magnitudeBytesForPack (signed : Bool) (value : ℤ) :
    Except PackError (Option Bool × Bytes) :=
  if signed = false ∧ value < 0 then
    .error .negativeUnsignedValue
  else
    let magnitude := if signed = true ∧ value < 0 then -value - 1 else value
    .ok (if signed then some (decide (value < 0)) else none,
      stripLeadingZero (toBytesBe magnitude.natAbs))

/-- The loop that adds the bit length of `last` to `required`.
SOURCE: tools.rs:204-207 -/
def countBits (last required : ℕ) : ℕ :=
  if last = 0 then required else countBits (last >>> 1) (required + 1)
termination_by last
decreasing_by simp only [Nat.shiftRight_eq_div_pow]; omega

/-- SOURCE: tools.rs:195-218 -/
def calcPackReqBytesBytes (signed : Bool) (value : Bytes) : ℕ :=
  match value with
  | [] => 1
  | first :: _ =>
    let required := 9 * (value.length - 1) + (value.length - 1) / 7
    let required := countBits first.toNat required
    let required := if first &&& 0x80 ≠ 0 then required + 1 else required
    let required := if signed then required + 1 else required
    (required + 8) / 8

/-- The variables of the regrouping loop. -/
structure PackLoop where
  offset : ℕ
  index : ℤ
  dst : Bytes
  deriving DecidableEq, Repr

/-- The byte of `magnitude` at an index the source has checked. -/
def byteAt (magnitude : Bytes) (i : ℤ) : ℕ := (magnitude.getD i.toNat 0).toNat

/-- The seven bits the loop takes at its current `offset` and `index`.
SOURCE: tools.rs:248-259 -/
def packGroup (magnitude : Bytes) (offset : ℕ) (index : ℤ) : ℕ :=
  let value :=
    if offset = 0 then
      if index ≥ 0 then byteAt magnitude index else 0
    else if index + 1 ≥ 0 ∧ (index + 1).toNat < magnitude.length then
      let value := byteAt magnitude (index + 1) >>> (8 - offset)
      if index ≥ 0 then value ||| byteAt magnitude index <<< offset else value
    else 0
  value &&& 0x7f

/-- One round of the regrouping loop: group, flags, store, counters.
SOURCE: tools.rs:248-278 -/
def packStep (negative : Option Bool) (magnitude : Bytes) (required startIndex : ℕ)
    (s : PackLoop) (outputIndex : ℕ) : PackLoop :=
  let value := packGroup magnitude s.offset s.index
  let offset := s.offset + 1
  let index := if offset = 8 then s.index + 1 else s.index
  let offset := if offset = 8 then 0 else offset
  let value := if outputIndex ≠ required - 1 then value ||| 0x80 else value
  let value := if negative = some true ∧ outputIndex = 0 then value ||| 0x40 else value
  ⟨offset, index - 1, s.dst.set (startIndex + outputIndex) (UInt8.ofNat value)⟩

/-- The bytes written and their number.
SOURCE: tools.rs:220-282 -/
def packValueMagnitude (negative : Option Bool) (magnitude dst : Bytes)
    (startIndex : ℕ) : Except PackError (ℕ × Bytes) :=
  if magnitude = [] then
    if startIndex ≥ dst.length then
      .error .startIndexOutOfBounds
    else
      .ok (1, dst.set startIndex (if negative = some true then 0x40 else 0))
  else
    let required := calcPackReqBytesBytes negative.isSome magnitude
    if startIndex + required > dst.length then
      .error (.destinationTooSmall required)
    else
      .ok (required, ((List.range required).reverse.foldl
        (packStep negative magnitude required startIndex)
        ⟨0, (magnitude.length : ℤ) - 1, dst⟩).dst)

/-- SOURCE: tools.rs:135-141 -/
def packValue (signed : Bool) (value : ℤ) : Except PackError Bytes := do
  let (negative, magnitude) ← magnitudeBytesForPack signed value
  let required := calcPackReqBytesBytes negative.isSome magnitude
  let (_, dst) ← packValueMagnitude negative magnitude (List.replicate required 0) 0
  pure dst

/-- The number of bytes and the buffer with them.
SOURCE: tools.rs:143-166 -/
def packValueInto (signed : Bool) (value : ℤ) (dst : Bytes) (startIndex : ℕ) :
    Except PackError (ℕ × Bytes) := do
  let (negative, magnitude) ← magnitudeBytesForPack signed value
  let required := calcPackReqBytesBytes negative.isSome magnitude
  if startIndex > dst.length then .error .startIndexOutOfBounds
  else if startIndex + required > dst.length then .error (.destinationTooSmall required)
  else
    let (_, dst) ← packValueMagnitude negative magnitude dst startIndex
    pure (required, dst)

/-! ### In place

The same functions with the buffer as a state that is there after every call, failed ones included,
and with no result (`none`) where an index or a shift amount is out of range and the source would
panic. -/

/-- `magnitude[i as usize]` for an `isize`. -/
def indexMagnitude (magnitude : Bytes) (i : ℤ) : Option ℕ :=
  if 0 ≤ i then magnitude[i.toNat]?.map UInt8.toNat else none

/-- The amount of a shift of a `usize` by an `i32`. -/
def shiftAmount (amount : ℤ) : Option ℕ :=
  if 0 ≤ amount ∧ amount < 64 then some amount.toNat else none

/-- SOURCE: tools.rs:248-259 -/
def packGroupInPlace (magnitude : Bytes) (offset : ℕ) (index : ℤ) : Option ℕ := do
  let value ←
    if offset = 0 then
      if index ≥ 0 then indexMagnitude magnitude index else some 0
    else if index + 1 ≥ 0 ∧ (index + 1).toNat < magnitude.length then do
      let low ← indexMagnitude magnitude (index + 1)
      let right ← shiftAmount (8 - offset)
      let value := low >>> right
      if index ≥ 0 then do
        let high ← indexMagnitude magnitude index
        let left ← shiftAmount offset
        some (value ||| high <<< left)
      else some value
    else some 0
  some (value &&& 0x7f)

/-- SOURCE: tools.rs:248-278 -/
def packStepInPlace (negative : Option Bool) (magnitude : Bytes) (required startIndex : ℕ)
    (s : PackLoop) (outputIndex : ℕ) : Option PackLoop := do
  let value ← packGroupInPlace magnitude s.offset s.index
  let offset := s.offset + 1
  let index := if offset = 8 then s.index + 1 else s.index
  let offset := if offset = 8 then 0 else offset
  let value := if outputIndex ≠ required - 1 then value ||| 0x80 else value
  let value := if negative = some true ∧ outputIndex = 0 then value ||| 0x40 else value
  if startIndex + outputIndex < s.dst.length then
    some ⟨offset, index - 1, s.dst.set (startIndex + outputIndex) (UInt8.ofNat value)⟩
  else none

/-- SOURCE: tools.rs:220-282 -/
def packValueMagnitudeInPlace (negative : Option Bool) (magnitude dst : Bytes)
    (startIndex : ℕ) : Option (Except PackError ℕ × Bytes) :=
  if magnitude = [] then
    if startIndex ≥ dst.length then
      some (.error .startIndexOutOfBounds, dst)
    else
      some (.ok 1, dst.set startIndex (if negative = some true then 0x40 else 0))
  else
    let required := calcPackReqBytesBytes negative.isSome magnitude
    if startIndex + required > dst.length then
      some (.error (.destinationTooSmall required), dst)
    else do
      let s ← (List.range required).reverse.foldlM
        (packStepInPlace negative magnitude required startIndex)
        ⟨0, (magnitude.length : ℤ) - 1, dst⟩
      some (.ok required, s.dst)

/-- SOURCE: tools.rs:143-166 -/
def packValueIntoInPlace (signed : Bool) (value : ℤ) (dst : Bytes) (startIndex : ℕ) :
    Option (Except PackError ℕ × Bytes) :=
  match magnitudeBytesForPack signed value with
  | .error e => some (.error e, dst)
  | .ok (negative, magnitude) =>
    let required := calcPackReqBytesBytes negative.isSome magnitude
    if startIndex > dst.length then some (.error .startIndexOutOfBounds, dst)
    else if startIndex + required > dst.length then
      some (.error (.destinationTooSmall required), dst)
    else do
      let (result, dst) ← packValueMagnitudeInPlace negative magnitude dst startIndex
      some (result.map fun _ => required, dst)

/-- The `loop` that counts the bytes of a value: it walks `data[start_index..]` up to the
first byte without bit 7.
SOURCE: tools.rs:289-297 -/
def usedBytes : Bytes → ℕ → Except UnpackError ℕ
  | [], _ => .error .incompleteValue
  | byte :: rest, used => if byte &&& 0x80 = 0 then .ok used else usedBytes rest (used + 1)

/-- SOURCE: tools.rs:284-315 -/
def unpackValue (signed : Bool) (data : Bytes) (startIndex : ℕ) :
    Except UnpackError (ℤ × ℕ) := do
  let used ← usedBytes (data.drop startIndex) 1
  let firstCut : UInt8 := if signed then 0x3f else 0x7f
  let magnitude := (List.range used).foldl (fun magnitude offset =>
    let mask := if offset = 0 then firstCut else 0x7f
    magnitude * 128 + (data.getD (startIndex + offset) 0 &&& mask).toNat) 0
  let result : ℤ :=
    if signed = true ∧ data.getD startIndex 0 &&& 0x40 ≠ 0 then
      -(magnitude : ℤ) - 1
    else
      magnitude
  pure (result, used)

end Uartbus.Model
