import Uartbus.Lib.Bytes
import Mathlib.Data.Int.Notation
import Mathlib.Data.Nat.Notation

/-!
# The 16 bit address codec of the microcontrollers

`ub_pack_16_value` and `ub_unpack_16_value` (addr16.c), the second implementation of the
variable-length address format.  An array with its size is a list; the return value is the
number of bytes or a negated error number.  `ub_pack_16_value` does not check that the array
has room for more than one byte, and a store behind the end is dropped here.
-/

set_option autoImplicit false

namespace Uartbus.Model

def ELNRNG : ℤ := 48
def EOVERFLOW : ℤ := 75
def EMSGSIZE : ℤ := 90

/-- The magnitude after `v = -(v+1)` for a negative `v`; it is not negative, and C promotes it
to `int`.
SOURCE: addr16.c:11-15 -/
def addr16Magnitude (v : Int16) : ℕ := (if v.toInt < 0 then -(v.toInt + 1) else v.toInt).toNat

/-- SOURCE: addr16.c:4-45 -/
def ubPack16Value (v : Int16) (arr : Bytes) : ℤ × Bytes :=
  if arr.length = 0 then (-EMSGSIZE, arr)
  else
    let neg := decide (v.toInt < 0)
    let v := addr16Magnitude v
    let first : UInt8 := if neg then 0x40 else 0x00
    if v ≤ 63 then
      (1, arr.set 0 (first ||| UInt8.ofNat (v &&& 0x3f)))
    else if v ≤ 8191 then
      -- the first byte of two is stored without the continuation flag
      (2, (arr.set 1 (UInt8.ofNat (v &&& 0x7f))).set 0
        (first ||| UInt8.ofNat (0x3f &&& (v >>> 7))))
    else
      (3, ((arr.set 2 (UInt8.ofNat (v &&& 0x7f))).set 1
          (UInt8.ofNat (((v >>> 7) &&& 0xff) ||| 0x80))).set 0
        (first ||| UInt8.ofNat ((0x3f &&& (v >>> 14)) ||| 0x80)))

/-- The loop that counts the bytes, from the byte at `i` on; `i == size-1` is an empty rest.
SOURCE: addr16.c:52-72 -/
def scanReq : Bytes → ℤ → Except ℤ ℤ
  | [], req => .ok req
  | byte :: rest, req =>
    if byte &&& 0x80 ≠ 0 then
      if rest = [] then .error (-ELNRNG)
      else if req + 1 > 2 then .error (-EMSGSIZE)
      else scanReq rest (req + 1)
    else .ok req

/-- The value the counted bytes stand for, before the sign.
SOURCE: addr16.c:74-91 -/
def addr16Value (arr : Bytes) (req : ℤ) : Except ℤ ℕ :=
  let byte (i : ℕ) : ℕ := (arr.getD i 0).toNat
  if req = 3 then
    if byte 1 &&& 0b0011100 ≠ 0 then .error (-EOVERFLOW)
    else .ok (((0b00111111 &&& byte 0) <<< 14) ||| ((0b01111111 &&& byte 1) <<< 7) ||| byte 2)
  else if req = 2 then .ok (((0b00111111 &&& byte 0) <<< 7) ||| byte 1)
  else .ok (0b00111111 &&& byte 0)

/-- The return value and the content of `*dst` afterwards.
SOURCE: addr16.c:49-107 -/
def ubUnpack16Value (dst : Int16) (arr : Bytes) : ℤ × Int16 :=
  match scanReq arr 1 with
  | .error e => (e, dst)
  | .ok req =>
    match addr16Value arr req with
    | .error e => (e, dst)
    | .ok value =>
      let value : Int16 := Int16.ofInt value
      (req, if arr.getD 0 0 &&& 0x40 ≠ 0 then -(value + 1) else value)

end Uartbus.Model
