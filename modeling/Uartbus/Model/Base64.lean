import Uartbus.Lib.Bytes
import Uartbus.Lib.MachineInt

/-!
# Base64

The text form of packets in the JSON lines of the server (base64.rs).  `decode` is the release
build, where arithmetic wraps; `decodeIn` has the same steps with what a build does when a shift or
a difference is out of range.
-/

set_option autoImplicit false

namespace Uartbus.Model.Base64

open Lib

/-- SOURCE: base64.rs:3 -/
def alphabet : List Char :=
  "ABCDEFGHIJKLMNOPQRSTUVWXYZabcdefghijklmnopqrstuvwxyz0123456789+/".toList

/-- `ALPHABET[n & 63]` -/
def digit (n : UInt32) : Char := alphabet.getD (n &&& 63).toNat '='

/-- SOURCE: base64.rs:9-28 -/
def encodeChunk (chunk : Bytes) : List Char :=
  let b0 := chunk.getD 0 0
  let b1 := chunk.getD 1 0
  let b2 := chunk.getD 2 0
  let n := (b0.toUInt32 <<< 16) ||| (b1.toUInt32 <<< 8) ||| b2.toUInt32
  [digit (n >>> 18), digit (n >>> 12), if chunk.length > 1 then digit (n >>> 6) else '=',
    if chunk.length > 2 then digit n else '=']

/-- SOURCE: base64.rs:8 -/
def encodeChunks : Bytes → List Char
  | [] => []
  | [a] => encodeChunk [a]
  | [a, b] => encodeChunk [a, b]
  | a :: b :: c :: rest => encodeChunk [a, b, c] ++ encodeChunks rest

/-- SOURCE: base64.rs:5-31 -/
def encode (data : Bytes) : String := String.ofList (encodeChunks data)

/-- The variables of the loop of `decode`. -/
structure Decoding where
  acc : UInt32
  bits : UInt32
  out : Bytes
  deriving DecidableEq, Repr

/-- The value of a character; none for the other ones.
SOURCE: base64.rs:39-44 -/
def digitValue (c : UInt8) : Option UInt8 :=
  if 65 ≤ c ∧ c ≤ 90 then some (c - 65)
  else if 97 ≤ c ∧ c ≤ 122 then some (c - 97 + 26)
  else if 48 ≤ c ∧ c ≤ 57 then some (c - 48 + 52)
  else if c = 43 then some 62
  else if c = 47 then some 63
  else none

/-- `=`, `\r` and `\n`
SOURCE: base64.rs:45 -/
def skipped (c : UInt8) : Bool := c = 61 || c = 13 || c = 10

/-- SOURCE: base64.rs:49-57 -/
def Decoding.push (d : Decoding) (value : UInt8) : Decoding :=
  let acc := (d.acc <<< 6) ||| value.toUInt32
  let bits := d.bits + 6
  if bits ≥ 8 then
    { acc := acc &&& ((1 <<< (bits - 8)) - 1)
      bits := bits - 8
      out := d.out ++ [(acc >>> (bits - 8)).toUInt8] }
  else { d with acc := acc, bits := bits }

/-- One iteration of the loop.
SOURCE: base64.rs:38-57 -/
def decodeByte (d : Decoding) (c : UInt8) : Except String Decoding :=
  match digitValue c with
  | some value => .ok (d.push value)
  | none =>
    if skipped c then .ok d
    else .error ("invalid base64 character: `" ++ String.singleton (Char.ofNat c.toNat) ++ "`")

/-- SOURCE: base64.rs:33-60 -/
def decode (text : String) : Except String Bytes :=
  (text.toUTF8.toList.foldlM decodeByte ⟨0, 0, []⟩).map Decoding.out

/-! ## Shifts and differences out of range -/

/-- The value of a character, or no end when a difference is out of range.
SOURCE: base64.rs:39-44 -/
def digitValueIn (mode : Overflow) (c : UInt8) : Option (Option UInt8) :=
  if 65 ≤ c ∧ c ≤ 90 then (MachineInt.sub mode c 65).map some
  else if 97 ≤ c ∧ c ≤ 122 then do
    let value ← MachineInt.sub mode c 97
    (MachineInt.add mode value 26).map some
  else if 48 ≤ c ∧ c ≤ 57 then do
    let value ← MachineInt.sub mode c 48
    (MachineInt.add mode value 52).map some
  else if c = 43 then some (some 62)
  else if c = 47 then some (some 63)
  else some none

/-- SOURCE: base64.rs:49-57 -/
def Decoding.pushIn (mode : Overflow) (d : Decoding) (value : UInt8) : Option Decoding := do
  let acc ← MachineInt.shl mode d.acc 6
  let acc := acc ||| value.toUInt32
  let bits ← MachineInt.add mode d.bits 6
  if bits ≥ 8 then
    let bits ← MachineInt.sub mode bits 8
    let byte ← MachineInt.shr mode acc bits
    let one ← MachineInt.shl mode 1 bits
    let mask ← MachineInt.sub mode one 1
    some { acc := acc &&& mask, bits := bits, out := d.out ++ [byte.toUInt8] }
  else some { d with acc := acc, bits := bits }

/-- SOURCE: base64.rs:38-57 -/
def decodeByteIn (mode : Overflow) (d : Decoding) (c : UInt8) :
    Option (Except String Decoding) := do
  match ← digitValueIn mode c with
  | some value => (d.pushIn mode value).map .ok
  | none =>
    if skipped c then some (.ok d)
    else
      some (.error
        ("invalid base64 character: `" ++ String.singleton (Char.ofNat c.toNat) ++ "`"))

/-- SOURCE: base64.rs:38-57 -/
def decodeBytesIn (mode : Overflow) : Decoding → Bytes → Option (Except String Decoding)
  | d, [] => some (.ok d)
  | d, c :: bytes => do
    match ← decodeByteIn mode d c with
    | .ok d => decodeBytesIn mode d bytes
    | .error err => some (.error err)

/-- SOURCE: base64.rs:33-60 -/
def decodeIn (mode : Overflow) (text : String) : Option (Except String Bytes) :=
  (decodeBytesIn mode ⟨0, 0, []⟩ text.toUTF8.toList).map fun result => result.map Decoding.out

end Uartbus.Model.Base64
