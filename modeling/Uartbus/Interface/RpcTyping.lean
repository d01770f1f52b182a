import Uartbus.Model.RpcTools

/-!
# Which typed values the wire carries

A value is written without its type and, but for strings and variable length integers, without
a mark of its end.  `HasType` says which values a type has on the wire; `Delimited` and
`EndsOpen` say where in a list of types a value may take all the bytes that are left.
-/

set_option autoImplicit false

namespace Uartbus.Interface

open Model

mutual

/-- The values of a type that a reader can tell from the bytes: strings without a NUL, an
unsigned value that is not negative, an index the enum has.  An index is a `usize`. -/
def HasType : RpcType → RpcValue → Prop
  | .bool, v => ∃ b, v = .bool b
  | .s8, v => ∃ b, v = .s8 b
  | .u8, v => ∃ b, v = .u8 b
  | .uint8, v => ∃ b, v = .uint8 b
  | .u16, v => ∃ w, v = .u16 w
  | .uint16, v => ∃ w, v = .uint16 w
  | .s16, v => ∃ w, v = .s16 w
  | .bytes, v => ∃ blob, v = .bytes blob
  | .string, v => ∃ s, v = .string s ∧ '\x00' ∉ s.toList
  | .vSigned, v => ∃ z, v = .vSigned z
  | .vUnsigned, v => ∃ z, v = .vUnsigned z ∧ 0 ≤ z
  | .enum values, v => ∃ i, v = .enum i ∧ i < values.length ∧ i < 2 ^ 64
  | .struct types, v => ∃ fields, v = .struct fields ∧ HaveTypes types fields
  | .array item, v => ∃ items, v = .array items ∧ ∀ x ∈ items, HasType item x

/-- Value by value. -/
def HaveTypes : List RpcType → List RpcValue → Prop
  | [], vs => vs = []
  | ty :: types, vs => ∃ v rest, vs = v :: rest ∧ HasType ty v ∧ HaveTypes types rest

end

mutual

/-- No part of the type runs to the end of the packet. -/
def Delimited : RpcType → Prop
  | .bytes | .array _ => False
  | .struct types => AllDelimited types
  | _ => True

def AllDelimited : List RpcType → Prop
  | [] => True
  | ty :: types => Delimited ty ∧ AllDelimited types

end

/-- Every value of the type takes at least one byte. -/
def TakesBytes (ty : RpcType) : Prop := ∀ v, HasType ty v → appendValue v ≠ .ok []

mutual

/-- A type that may stand at the end of a packet. -/
def MayEnd : RpcType → Prop
  | .array item => Delimited item ∧ TakesBytes item
  | .struct types => EndsOpen types
  | _ => True

/-- Only the last type of the list may run to the end of the packet. -/
def EndsOpen : List RpcType → Prop
  | [] => True
  | [ty] => MayEnd ty
  | ty :: next :: types => Delimited ty ∧ EndsOpen (next :: types)

end

mutual

/-- Values of the type are written with no bytes at all. -/
def hollow : RpcType → Bool
  | .struct types => allHollow types
  | _ => false

def allHollow : List RpcType → Bool
  | [] => true
  | ty :: types => hollow ty && allHollow types

end

mutual

/-- The type has values that a reader finds the end of, with bytes behind it. -/
def passes : RpcType → Bool
  | .bytes | .array _ => false
  | .enum values => !values.isEmpty
  | .struct types => allPass types
  | _ => true

def allPass : List RpcType → Bool
  | [] => true
  | ty :: types => passes ty && allPass types

end

mutual

/-- A reader can come to an array of values without bytes that has bytes left. -/
def stuck : RpcType → Bool
  | .array item => hollow item || stuck item
  | .struct types => anyStuck types
  | _ => false

/-- One of the types is stuck, and those before it leave it bytes. -/
def anyStuck : List RpcType → Bool
  | [] => false
  | ty :: types => stuck ty || (passes ty && anyStuck types)

end

/-- Reading a packet type by type. -/
def readTypes : List RpcType → PacketReader → Option (List RpcValue × PacketReader)
  | [], r => some ([], r)
  | ty :: types, r =>
    match readType ty r with
    | .value v r => (readTypes types r).map fun rest => (v :: rest.1, rest.2)
    | .error _ | .diverges => none

end Uartbus.Interface
