import Uartbus.Lib.Bytes
import Uartbus.Lib.ShiftRegister

/-!
# The checksum on the wire

Bytes are transmitted least significant bit first.  The checksum of a packet is the remainder
of this bit string for x^8 + x^5 + x^4 + 1, one shift for each bit, from a register of zeros:
the Dallas/Maxim CRC-8.  A packet followed by its checksum has the remainder zero, and two
kinds of errors never lead from one such packet to another (`dallasCrc8_detects`).
-/

set_option autoImplicit false

namespace Uartbus.Interface

open Lib

variable {other packet : Bytes}

/-- The bits of a byte in the order of their transmission. -/
def byteBits (b : UInt8) : List Bool := (List.range 8).map b.toBitVec.getLsbD

/-- The bits of a packet in the order of their transmission. -/
def wireBits (packet : Bytes) : List Bool := packet.flatMap byteBits

/-- x^8 + x^5 + x^4 + 1 for a register that shifts to the right: bit `7 - k` stands for x^k. -/
def dallasFeedback : BitVec 8 := 0x8c

/-- The bit-serial checksum. -/
def dallasCrc8 (packet : Bytes) : BitVec 8 := remainder dallasFeedback 0 (wireBits packet)

/-- The bits in which two packets differ on the wire. -/
def flippedBits (packet other : Bytes) : List Bool := flips (wireBits packet) (wireBits other)

@[simp] theorem wireBits_append (packet more : Bytes) :
    wireBits (packet ++ more) = wireBits packet ++ wireBits more := List.flatMap_append

@[simp] theorem wireBits_singleton (b : UInt8) : wireBits [b] = byteBits b := by
  simp [wireBits]

@[simp] theorem length_byteBits (b : UInt8) : (byteBits b).length = 8 := by
  simp [byteBits]

theorem length_wireBits (packet : Bytes) : (wireBits packet).length = 8 * packet.length := by
  induction packet with
  | nil => rfl
  | cons b packet ih =>
    rw [← List.singleton_append, wireBits_append, List.length_append, ih, wireBits_singleton,
      length_byteBits, List.length_append, List.length_singleton]
    omega

/-- A byte is the register its bits fill. -/
theorem ofBits_byteBits (b : UInt8) : ofBits 8 (byteBits b) = b.toBitVec := by
  apply BitVec.eq_of_getLsbD_eq
  intro i hi
  rw [getLsbD_ofBits]
  simp [byteBits, hi]

theorem byteBits_injective {b c : UInt8} (h : byteBits b = byteBits c) : b = c := by
  apply UInt8.toBitVec_inj.mp
  rw [← ofBits_byteBits, h, ofBits_byteBits]

theorem wireBits_injective (hlen : packet.length = other.length)
    (h : wireBits packet = wireBits other) : packet = other := by
  induction packet generalizing other with
  | nil => simpa using hlen.symm
  | cons b packet ih =>
    cases other with
    | nil => simp at hlen
    | cons c other =>
      obtain ⟨hbyte, hrest⟩ := List.append_inj h (by simp)
      rw [byteBits_injective hbyte, ih (by simpa using hlen) hrest]

/-- The checksum of one more byte. -/
theorem dallasCrc8_concat (packet : Bytes) (b : UInt8) :
    dallasCrc8 (packet ++ [b]) =
      remainder dallasFeedback (b.toBitVec ^^^ dallasCrc8 packet) (List.replicate 8 false) := by
  rw [dallasCrc8, wireBits_append, wireBits_singleton, remainder_append,
    remainder_block _ _ (Nat.le_of_eq (length_byteBits b)), ofBits_byteBits, length_byteBits,
    BitVec.xor_comm]
  rfl

/-- **A packet ends with its checksum** exactly when its remainder is zero. -/
theorem dallasCrc8_concat_eq_zero_iff (packet : Bytes) (b : UInt8) :
    dallasCrc8 (packet ++ [b]) = 0 ↔ b.toBitVec = dallasCrc8 packet := by
  rw [dallasCrc8_concat]
  constructor
  · intro hzero
    by_contra hne
    have hreg : b.toBitVec ^^^ dallasCrc8 packet ≠ 0 := by
      intro hxor
      exact hne (BitVec.xor_eq_zero_iff.mp hxor)
    exact remainder_zeros_ne_zero (by decide) hreg 8 hzero
  · intro heq
    rw [heq, BitVec.xor_self]
    exact remainder_zeros dallasFeedback 8

/-- **Errors that are always seen.**  A packet with remainder zero does not become another one
by flipping an odd number of bits, nor by flipping bits within eight neighbouring ones. -/
theorem dallasCrc8_detects (hlen : packet.length = other.length) (hzero : dallasCrc8 packet = 0)
    (herror : Odd ((flippedBits packet other).count true) ∨
      (packet ≠ other ∧ Burst 8 (flippedBits packet other))) : dallasCrc8 other ≠ 0 := by
  have hwire : (wireBits packet).length = (wireBits other).length := by
    rw [length_wireBits, length_wireBits, hlen]
  have hlinear := remainder_flips dallasFeedback 0 0 hwire
  rw [BitVec.xor_self] at hlinear
  have hother : dallasCrc8 other = remainder dallasFeedback 0 (flippedBits packet other) := by
    rw [flippedBits, show (0 : BitVec 8) = 0#8 from rfl, hlinear]
    change dallasCrc8 other = dallasCrc8 packet ^^^ dallasCrc8 other
    rw [hzero]
    simp
  rw [hother]
  cases herror with
  | inl hodd => exact remainder_odd_ne_zero (by decide) hodd
  | inr hburst =>
    have hset : true ∈ flippedBits packet other :=
      mem_flips_of_ne hwire fun h => hburst.1 (wireBits_injective hlen h)
    exact remainder_burst_ne_zero (by decide) hburst.2 hset

end Uartbus.Interface
