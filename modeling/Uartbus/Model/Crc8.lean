import Uartbus.Lib.Bytes

/-!
# The checksum

The Dallas/Maxim CRC-8 of a packet.  The source has it three times: in the link layer (ub.c),
in the direct host (direct.c) and in the Rust tools, where a packet is valid when its last byte
is the checksum of the others.
-/

set_option autoImplicit false

namespace Uartbus.Model

/-- One round of the loop, the same text in the three functions.
SOURCE: ub.c:117-134, direct.c:24-41, tools.rs:60-85 -/
def crc8Round (crc byte : UInt8) : UInt8 :=
  let v := byte ^^^ crc
  let crc : UInt8 := 0
  let crc := if v &&& 0x01 ≠ 0 then crc ^^^ 0x5e else crc
  let crc := if v &&& 0x02 ≠ 0 then crc ^^^ 0xbc else crc
  let crc := if v &&& 0x04 ≠ 0 then crc ^^^ 0x61 else crc
  let crc := if v &&& 0x08 ≠ 0 then crc ^^^ 0xc2 else crc
  let crc := if v &&& 0x10 ≠ 0 then crc ^^^ 0x9d else crc
  let crc := if v &&& 0x20 ≠ 0 then crc ^^^ 0x23 else crc
  let crc := if v &&& 0x40 ≠ 0 then crc ^^^ 0x46 else crc
  if v &&& 0x80 ≠ 0 then crc ^^^ 0x8c else crc

/-- The C function; the length is a `uint8_t`.
SOURCE: ub.c:110-138, direct.c:17-45 -/
def ubCrc8 (data : Bytes) (length : UInt8) : UInt8 :=
  (data.take length.toNat).foldl crc8Round 0

/-- SOURCE: tools.rs:56-89 -/
def crc8Prefix (data : Bytes) (length : ℕ) : UInt8 :=
  (data.take length).foldl crc8Round 0

/-- SOURCE: tools.rs:52-54 -/
def crc8 (data : Bytes) : UInt8 := crc8Prefix data data.length

/-- The loop of the C functions, with its `uint8_t` counter.
SOURCE: ub.c:115-137, direct.c:22-44 -/
def crc8Loop (data : Bytes) (length i crc : UInt8) : UInt8 :=
  if i < length then
    crc8Loop data length (i + 1) (crc8Round crc (data.getD i.toNat 0))
  else crc
termination_by length.toNat - i.toNat
decreasing_by
  rename_i hlt
  have hi := UInt8.lt_iff_toNat_lt.mp hlt
  have hlength := length.toNat_lt
  rw [UInt8.toNat_add, show (1 : UInt8).toNat = 1 from rfl, Nat.mod_eq_of_lt (by omega)]
  omega

/-- `crc8` of the link layer.
SOURCE: ub.c:110-138 -/
def linkCrc8 (data : Bytes) (length : UInt8) : UInt8 := crc8Loop data length 0 0

/-- `crc8` of the direct host.
SOURCE: direct.c:17-45 -/
def directCrc8 (data : Bytes) (length : UInt8) : UInt8 := crc8Loop data length 0 0

/-- SOURCE: tools.rs:325-327 -/
def isPacketCrc8Valid (data : Bytes) : Bool :=
  !data.isEmpty && crc8Prefix data (data.length - 1) == data.getD (data.length - 1) 0

/-- The packet without its checksum.
SOURCE: tools.rs:317-323 -/
def getValidPacket (data : Bytes) : Option Bytes :=
  if !data.isEmpty && crc8Prefix data (data.length - 1) == data.getD (data.length - 1) 0 then
    some (data.take (data.length - 1))
  else none

end Uartbus.Model
