import Mathlib.Data.Nat.Size
import Uartbus.Model.Tools

/-!
# The variable-length integer code of the Java tools

`packValue` and `unpackValue` of UartbusTools.java.  The encoder is the one the Rust tools were
ported from, without their guards: it reads the magnitude at `index` and `index + 1` and ends
with an exception when there is no such byte.  The decoder puts the groups of seven bits together
to the bytes of a two's complement number.

An `int` is a number of 32 bits here (`wrapInt`); bytes are taken without their sign, since the
source masks every byte it reads.
-/

set_option autoImplicit false

namespace Uartbus.Model.Java

/-- What `int` arithmetic makes of a number. -/
def wrapInt (v : ℤ) : ℤ := v.bmod (2 ^ 32)

inductive JavaException where
  | runtime (message : String)
  | arrayIndexOutOfBounds
  | negativeArraySize
  | numberFormat
  deriving DecidableEq, Repr

/-- `array[i]` as a value. -/
def load (array : Bytes) (i : ℤ) : Except JavaException UInt8 :=
  if 0 ≤ i ∧ i < array.length then .ok (array.getD i.toNat 0)
  else .error .arrayIndexOutOfBounds

/-- `array[i] = b`. -/
def store (array : Bytes) (i : ℤ) (b : UInt8) : Except JavaException Bytes :=
  if 0 ≤ i ∧ i < array.length then .ok (array.set i.toNat b)
  else .error .arrayIndexOutOfBounds

/-! ## `java.math.BigInteger` -/

/-- The bits of the two's complement form without the sign bit. -/
def bitLength (v : ℤ) : ℕ := (if v < 0 then -v - 1 else v).natAbs.size

/-- The two's complement form, most significant byte first, in as few bytes as hold it with its
sign bit. -/
def toByteArray (v : ℤ) : Bytes :=
  let length := bitLength v / 8 + 1
  (List.range length).map fun i => UInt8.ofNat (v / 256 ^ (length - 1 - i) % 256).toNat

/-- The number of a two's complement form. -/
def ofByteArray (bytes : Bytes) : ℤ :=
  let magnitude : ℕ := bytes.foldl (fun acc b => acc * 256 + b.toNat) 0
  if 128 ≤ (bytes.headD 0).toNat then (magnitude : ℤ) - 256 ^ bytes.length else magnitude

/-! ## Packing -/

/-- SOURCE: UartbusTools.java:180-184 -/
def countBits (lst : ℕ) (sReq : ℤ) : ℤ :=
  if lst = 0 then sReq else countBits (lst >>> 1) (wrapInt (sReq + 1))
termination_by lst
decreasing_by simp only [Nat.shiftRight_eq_div_pow]; omega

/-- SOURCE: UartbusTools.java:172-200 -/
def calcPackReqBytes (signed : Bool) (value : Bytes) : Except JavaException ℤ := do
  let length : ℤ := value.length
  let sReq := wrapInt (wrapInt (9 * (length - 1)) + (length - 1).tdiv 7)
  let lst ← load value 0
  let sReq := countBits lst.toNat sReq
  let sReq := if lst &&& 0x80 = 0x80 then wrapInt (sReq + 1) else sReq
  let sReq := if signed then wrapInt (sReq + 1) else sReq
  pure ((wrapInt (sReq + 8)).tdiv 8)

/-- The seven bits the loop takes at its current `off` and `index`.
SOURCE: UartbusTools.java:240-254 -/
def packGroup (value : Bytes) (off : ℕ) (index : ℤ) : Except JavaException ℕ :=
  if off = 0 then do
    let b ← load value index
    pure (b.toNat &&& 0x7f)
  else do
    let low ← load value (index + 1)
    if index ≥ 0 then do
      let high ← load value index
      pure ((low.toNat >>> (8 - off) ||| high.toNat <<< off) &&& 0x7f)
    else pure (low.toNat >>> (8 - off) &&& 0x7f)

/-- The loop over the output, from its last byte; the first argument is `i + 1`.
SOURCE: UartbusTools.java:238-273 -/
def packLoop (negative : Option Bool) (value : Bytes) (sReq : ℤ) (startIndex : ℕ) :
    ℕ → ℕ → ℤ → Bytes → Except JavaException Bytes
  | 0, _, _, dst => .ok dst
  | i + 1, off, index, dst => do
    let val ← packGroup value off index
    let off := off + 1
    let index := if off = 8 then index + 1 else index
    let off := if off = 8 then 0 else off
    let val := if (i : ℤ) ≠ sReq - 1 then val ||| 0x80 else val
    let val := if negative = some true ∧ i = 0 then val ||| 0x40 else val
    let dst ← store dst (startIndex + i) (UInt8.ofNat val)
    packLoop negative value sReq startIndex i off (index - 1) dst

/-- The number of bytes and the array with them.
SOURCE: UartbusTools.java:218-276 -/
def packMagnitude (negative : Option Bool) (value dst : Bytes) (startIndex : ℕ) :
    Except JavaException (ℤ × Bytes) :=
  if value = [] then do
    let dst ← store dst startIndex (if negative = some true then 0x40 else 0)
    pure (1, dst)
  else do
    let sReq ← calcPackReqBytes negative.isSome value
    let dst ← packLoop negative value sReq startIndex sReq.toNat 0 ((value.length : ℤ) - 1) dst
    pure (sReq, dst)

/-- SOURCE: UartbusTools.java:133-161 -/
def packValue (signed : Bool) (value : ℤ) (dst : Bytes) (startIndex : ℕ) :
    Except JavaException (ℤ × Bytes) :=
  if signed = false ∧ value < 0 then
    .error (.runtime ("Value must be unsigned: " ++ toString value))
  else
    let negative := if signed then some (decide (value < 0)) else none
    let re := toByteArray (if signed = true ∧ value < 0 then -value - 1 else value)
    let re := if re.headD 0 = 0 then re.tail else re
    packMagnitude negative re dst startIndex

/-! ## Unpacking -/

/-- The loop over the groups, from the last one; the first argument is `ahead + 1`.
SOURCE: UartbusTools.java:316-343 -/
def unpackLoop (cut : UInt8) (data : Bytes) (startIndex : ℕ) :
    ℕ → ℤ → ℤ → Bytes → Bytes
  | 0, _, _, num => num
  | ahead + 1, off, index, num =>
    if index < 0 then num
    else if off + 1 = 7 then
      -- `index` goes up here and down again with the loop
      unpackLoop cut data startIndex ahead (-1) index num
    else
      let off := off + 1
      let mask : UInt8 := if index ≠ startIndex then 0x7f else cut
      let val := (mask &&& data.getD (startIndex + ahead) 0).toNat >>> off.toNat
      let val :=
        if ahead > 0 then
          val ||| (0x7f &&& data.getD (startIndex + ahead - 1) 0).toNat <<< (7 - off).toNat
        else val
      unpackLoop cut data startIndex ahead off (index - 1)
        (num.set index.toNat (UInt8.ofNat val))

/-- The value and the number of bytes it takes.
SOURCE: UartbusTools.java:290-359 -/
def unpackValue (signed : Bool) (data : Bytes) (startIndex : ℕ) :
    Except JavaException (ℤ × ℕ) :=
  match usedBytes (data.drop startIndex) 0 with
  | .error _ => .error (.runtime "Incomplete value in the buffer.")
  | .ok ahead =>
    let cut : UInt8 := if signed then 0x3f else 0x7f
    let req := (wrapInt ((ahead + 1) * 7)).tdiv 8 + 1
    if req < 0 then .error .negativeArraySize
    else if req = 0 then .error .numberFormat
    else
      let num := unpackLoop cut data startIndex (ahead + 1) (-1) (req - 1)
        (List.replicate req.toNat 0)
      let ret := ofByteArray num
      .ok (if signed = true ∧ data.getD startIndex 0 &&& 0x40 ≠ 0 then -ret - 1 else ret,
        ahead + 1)

end Uartbus.Model.Java
