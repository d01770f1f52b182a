import Uartbus.Model.Crc8
import Uartbus.Model.Tools

/-!
# Typed RPC values

The values of remote calls, how they are written (`append_value`) and how they are read back
(`read_type`), from rpc/tools.rs and packet.rs.

Reading an array goes on as long as there are bytes.  With items that take no bytes it never
ends, which is the outcome `diverges`.
-/

set_option autoImplicit false

namespace Uartbus.Model

/-- SOURCE: rpc/tools.rs:9-25 -/
inductive RpcValue where
  | bool (value : Bool)
  | s8 (value : Int8)
  | u8 (value : UInt8)
  | uint8 (value : UInt8)
  | u16 (value : UInt16)
  | uint16 (value : UInt16)
  | s16 (value : Int16)
  | bytes (value : Bytes)
  | string (value : String)
  | vSigned (value : ℤ)
  | vUnsigned (value : ℤ)
  | enum (index : ℕ)
  | struct (values : List RpcValue)
  | array (values : List RpcValue)
  deriving Repr

/-- SOURCE: rpc/tools.rs:27-43 -/
inductive RpcType where
  | bool | s8 | u8 | uint8 | u16 | uint16 | s16 | bytes | string | vSigned | vUnsigned
  | enum (values : List String)
  | struct (types : List RpcType)
  | array (item : RpcType)
  deriving Repr

/-- SOURCE: rpc/tools.rs:45-50 -/
inductive RpcReadError where
  | packet (err : UnpackError)
  | enumIndexOutOfRange (index len : ℕ)
  deriving DecidableEq, Repr

/-- SOURCE: tools.rs:19-32 -/
def PackError.text : PackError → String
  | .negativeUnsignedValue => "value must be unsigned"
  | .startIndexOutOfBounds => "start index is out of bounds"
  | .destinationTooSmall required =>
    "destination buffer is too small; required " ++ toString required ++ " bytes"

/-- SOURCE: tools.rs:34-40, rpc/tools.rs:52-62 -/
def RpcReadError.text : RpcReadError → String
  | .packet .incompleteValue => "packet read error: incomplete variable-length value"
  | .enumIndexOutOfRange index len =>
    "enum index " ++ toString index ++ " is out of range for " ++ toString len ++ " values"

/-- `u16::to_be_bytes`. -/
def toBeBytes (value : UInt16) : Bytes := [(value >>> 8).toUInt8, value.toUInt8]

/-- `u16::from_be_bytes`. -/
def fromBeBytes (high low : UInt8) : UInt16 := (high.toUInt16 <<< 8) ||| low.toUInt16

mutual

/-- The bytes a value adds to the assembler.
SOURCE: rpc/tools.rs:98-121, packet.rs:45-105 -/
def appendValue : RpcValue → Except PackError Bytes
  | .bool value => .ok [if value then 1 else 0]
  | .s8 value => .ok [value.toUInt8]
  | .u8 value | .uint8 value => .ok [value]
  | .u16 value | .uint16 value => .ok (toBeBytes value)
  | .s16 value => .ok (toBeBytes value.toUInt16)
  | .bytes value => .ok value
  | .string value => .ok (value.toUTF8.toList ++ [0])
  | .vSigned value | .vUnsigned value => packValue true value
  | .enum index => packValue false index
  | .struct values | .array values => appendElements values

/-- SOURCE: rpc/tools.rs:87-96 -/
def appendElements : List RpcValue → Except PackError Bytes
  | [] => .ok []
  | value :: values => do
    let first ← appendValue value
    let rest ← appendElements values
    pure (first ++ rest)

end

namespace PacketAssembler

/-- SOURCE: packet.rs:94-105 -/
def writePackedValue (buffer : Bytes) (signed : Bool) (value : ℤ) :
    Except PackError Bytes := do
  let required := (← packValue signed value).length
  let start := buffer.length
  let (_, buffer) ← packValueInto signed value (buffer ++ List.replicate required 0) start
  pure buffer

/-- SOURCE: packet.rs:107-109 -/
def writeAddress (buffer : Bytes) (value : ℤ) : Except PackError Bytes :=
  writePackedValue buffer true value

/-- SOURCE: packet.rs:111-114 -/
def writeAddressing (buffer : Bytes) (fromAddress toAddress : ℤ) :
    Except PackError Bytes := do
  let buffer ← writeAddress buffer toAddress
  writeAddress buffer fromAddress

/-- SOURCE: packet.rs:116-119 -/
def appendCrc8 (buffer : Bytes) : Bytes := buffer ++ [crc8 buffer]

end PacketAssembler

/-- SOURCE: rpc/tools.rs:123-129 -/
def toPacket (toAddress fromAddress : ℤ) (elements : List RpcValue) :
    Except PackError Bytes := do
  let buffer ← PacketAssembler.writeAddressing [] fromAddress toAddress
  let bytes ← appendElements elements
  pure (PacketAssembler.appendCrc8 (buffer ++ bytes))

/-- SOURCE: packet.rs:126-129 -/
structure PacketReader where
  data : Bytes
  ep : ℕ
  deriving DecidableEq, Repr

/-- What `read_type` comes to. -/
inductive ReadOutcome where
  | value (v : RpcValue) (reader : PacketReader)
  | error (err : RpcReadError)
  | diverges
  deriving Repr

namespace PacketReader

/-- SOURCE: packet.rs:156-160 -/
def readUbyte (r : PacketReader) : Option (UInt8 × PacketReader) :=
  r.data[r.ep]?.map fun value => (value, { r with ep := r.ep + 1 })

/-- SOURCE: packet.rs:207-210 -/
def readU16Be (r : PacketReader) : Option (UInt16 × PacketReader) :=
  match r.data[r.ep]?, r.data[r.ep + 1]? with
  | some high, some low => some (fromBeBytes high low, { r with ep := r.ep + 2 })
  | _, _ => none

/-- SOURCE: packet.rs:170-175 -/
def readInt (r : PacketReader) (signed : Bool) : Except UnpackError (ℤ × PacketReader) := do
  let (value, used) ← unpackValue signed r.data r.ep
  pure (value, { r with ep := r.ep + used })

/-- SOURCE: packet.rs:184-188 -/
def readBlobRemain (r : PacketReader) : Bytes × PacketReader :=
  (r.data.drop r.ep, { r with ep := r.data.length })

/-- SOURCE: packet.rs:190-201 -/
def readString (r : PacketReader) : Except UnpackError (String × PacketReader) :=
  let rest := r.data.drop r.ep
  let offset := rest.findIdx (· = 0)
  if offset < rest.length then
    match String.fromUTF8? ⟨(rest.take offset).toArray⟩ with
    | some value => .ok (value, { r with ep := r.ep + offset + 1 })
    | none => .error .incompleteValue
  else .error .incompleteValue

/-- SOURCE: packet.rs:238-240 -/
def hasUnprocessedBytes (r : PacketReader) : Bool := decide (r.ep < r.data.length)

end PacketReader

/-- A value read from an optional result, or an incomplete one. -/
def ReadOutcome.ofOption {α : Type} (wrap : α → RpcValue) :
    Option (α × PacketReader) → ReadOutcome
  | some (v, reader) => .value (wrap v) reader
  | none => .error (.packet .incompleteValue)

def ReadOutcome.ofExcept {α : Type} (wrap : α → RpcValue) :
    Except UnpackError (α × PacketReader) → ReadOutcome
  | .ok (v, reader) => .value (wrap v) reader
  | .error err => .error (.packet err)

/-- The enum branch: the index must fit a `u64` and be one of the values.
SOURCE: rpc/tools.rs:173-190 -/
def readEnum (len : ℕ) (r : PacketReader) : ReadOutcome :=
  match r.readInt false with
  | .error err => .error (.packet err)
  | .ok (value, reader) =>
    if 0 ≤ value ∧ value < 2 ^ 64 then
      if value.toNat ≥ len then .error (.enumIndexOutOfRange value.toNat len)
      else .value (.enum value.toNat) reader
    else .error (.packet .incompleteValue)

/-- The array loop.  Each round that takes a byte leaves fewer, so `fuel` rounds are enough for
`fuel` bytes; a round that takes none is repeated forever.
SOURCE: rpc/tools.rs:198-204 -/
def readArray (readItem : PacketReader → ReadOutcome) :
    ℕ → PacketReader → List RpcValue → ReadOutcome
  | fuel, reader, values =>
    if reader.hasUnprocessedBytes then
      match fuel with
      | 0 => .diverges
      | fuel + 1 =>
        match readItem reader with
        | .value v reader => readArray readItem fuel reader (values ++ [v])
        | .error err => .error err
        | .diverges => .diverges
    else .value (.array values) reader

mutual

/-- SOURCE: rpc/tools.rs:131-206 -/
def readType : RpcType → PacketReader → ReadOutcome
  | .bool, r => .ofOption (fun b => .bool (decide (b ≠ 0))) r.readUbyte
  | .s8, r => .ofOption (fun b => .s8 b.toInt8) r.readUbyte
  | .u8, r => .ofOption .u8 r.readUbyte
  | .uint8, r => .ofOption .uint8 r.readUbyte
  | .u16, r => .ofOption .u16 r.readU16Be
  | .uint16, r => .ofOption .uint16 r.readU16Be
  | .s16, r => .ofOption (fun v => .s16 v.toInt16) r.readU16Be
  | .bytes, r => .value (.bytes r.readBlobRemain.1) r.readBlobRemain.2
  | .string, r => .ofExcept .string r.readString
  | .vSigned, r => .ofExcept .vSigned (r.readInt true)
  | .vUnsigned, r => .ofExcept .vUnsigned (r.readInt false)
  | .enum values, r => readEnum values.length r
  | .struct types, r => readFields types r []
  | .array item, r => readArray (readType item) (r.data.length - r.ep) r []

/-- The loop over the fields of a struct. -/
def readFields : List RpcType → PacketReader → List RpcValue → ReadOutcome
  | [], r, values => .value (.struct values) r
  | ty :: types, r, values =>
    match readType ty r with
    | .value v r => readFields types r (values ++ [v])
    | .error err => .error err
    | .diverges => .diverges

end

end Uartbus.Model
