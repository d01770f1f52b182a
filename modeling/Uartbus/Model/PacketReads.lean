import Uartbus.Model.RpcTools

/-!
# How reading a typed value ends

`read_type` once more, with what its callers can see besides the value: the reader it leaves behind
an error, and the panic of a slice that starts behind the data.  The loop of an array is run for a
given number of rounds, and there is no end (`none`) when they are used up.
-/

set_option autoImplicit false

namespace Uartbus.Model

inductive ReadEnd where
  | value (v : RpcValue) (reader : PacketReader)
  | error (err : RpcReadError) (reader : PacketReader)
  | panics
  deriving Repr

namespace ReadEnd

/-- A failed read of a reader function leaves the reader as it was. -/
def ofOption {α : Type} (wrap : α → RpcValue) (r : PacketReader) :
    Option (α × PacketReader) → ReadEnd
  | some (v, reader) => .value (wrap v) reader
  | none => .error (.packet .incompleteValue) r

def ofExcept {α : Type} (wrap : α → RpcValue) (r : PacketReader) :
    Except UnpackError (α × PacketReader) → ReadEnd
  | .ok (v, reader) => .value (wrap v) reader
  | .error err => .error (.packet err) r

/-- `self.data[self.ep..]` -/
def sliced (r : PacketReader) (ended : ReadEnd) : ReadEnd :=
  if r.ep ≤ r.data.length then ended else .panics

/-- The index is read before it is compared.
SOURCE: rpc/tools.rs:173-190 -/
def ofEnum (len : ℕ) (r : PacketReader) : ReadEnd :=
  match r.readInt false with
  | .error err => .error (.packet err) r
  | .ok (index, reader) =>
    if 0 ≤ index ∧ index < 2 ^ 64 then
      if index.toNat ≥ len then .error (.enumIndexOutOfRange index.toNat len) reader
      else .value (.enum index.toNat) reader
    else .error (.packet .incompleteValue) reader

end ReadEnd

/-- SOURCE: rpc/tools.rs:198-204 -/
def readItems (readItem : PacketReader → Option ReadEnd) :
    ℕ → PacketReader → List RpcValue → Option ReadEnd
  | 0, _, _ => none
  | rounds + 1, reader, values =>
    if reader.hasUnprocessedBytes then
      match readItem reader with
      | some (.value v reader) => readItems readItem rounds reader (values ++ [v])
      | ended => ended
    else some (.value (.array values) reader)

mutual

/-- `read_type` with at most `rounds` rounds for the loop of an array.
SOURCE: rpc/tools.rs:131-206 -/
def readWithin (rounds : ℕ) : RpcType → PacketReader → Option ReadEnd
  | .bool, r => some (.ofOption (fun b => .bool (decide (b ≠ 0))) r r.readUbyte)
  | .s8, r => some (.ofOption (fun b => .s8 b.toInt8) r r.readUbyte)
  | .u8, r => some (.ofOption .u8 r r.readUbyte)
  | .uint8, r => some (.ofOption .uint8 r r.readUbyte)
  | .u16, r => some (.ofOption .u16 r r.readU16Be)
  | .uint16, r => some (.ofOption .uint16 r r.readU16Be)
  | .s16, r => some (.ofOption (fun v => .s16 v.toInt16) r r.readU16Be)
  | .bytes, r => some (.sliced r (.value (.bytes r.readBlobRemain.1) r.readBlobRemain.2))
  | .string, r => some (.sliced r (.ofExcept .string r r.readString))
  | .vSigned, r => some (.ofExcept .vSigned r (r.readInt true))
  | .vUnsigned, r => some (.ofExcept .vUnsigned r (r.readInt false))
  | .enum values, r => some (.ofEnum values.length r)
  | .struct types, r => readFieldsWithin rounds types r []
  | .array item, r => readItems (readWithin rounds item) rounds r []

def readFieldsWithin (rounds : ℕ) : List RpcType → PacketReader → List RpcValue → Option ReadEnd
  | [], r, values => some (.value (.struct values) r)
  | ty :: types, r, values =>
    match readWithin rounds ty r with
    | some (.value v r) => readFieldsWithin rounds types r (values ++ [v])
    | ended => ended

end

end Uartbus.Model
