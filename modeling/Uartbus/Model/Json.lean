import Mathlib.Algebra.Group.Nat.Defs
import Mathlib.Data.Int.Notation
import Mathlib.Data.List.Basic
import Uartbus.Model.Text

/-!
# JSON values

The values of serde_json that the RPC server and its client handle.  An object is a `BTreeMap`: the
list of its fields in the order of their keys.
-/

set_option autoImplicit false

namespace Uartbus.Model

/-- A number is an unsigned or a negative integer, or a float, which is known by its text. -/
inductive JsonNumber where
  | posInt (n : UInt64)
  | negInt (n : ℤ)
  | float (text : String)
  deriving DecidableEq, Repr

inductive Value where
  | null
  | bool (b : Bool)
  | number (n : JsonNumber)
  | string (s : String)
  | array (elements : List Value)
  | object (fields : List (String × Value))

/-! ## Access -/

/-- The field of a map. -/
def findField (key : String) : List (String × Value) → Option Value
  | [] => none
  | (k, v) :: fields => if k = key then some v else findField key fields

/-- A field is set in a map, in its place in the order of the keys. -/
def insertField (key : String) (value : Value) : List (String × Value) → List (String × Value)
  | [] => [(key, value)]
  | (k, v) :: fields =>
    if k = key then (key, value) :: fields
    else if key < k then (key, value) :: (k, v) :: fields
    else (k, v) :: insertField key value fields

theorem findField_insertField (key : String) (value : Value) (fields : List (String × Value)) :
    findField key (insertField key value fields) = some value := by
  induction fields with
  | nil => exact if_pos rfl
  | cons field fields ih =>
    obtain ⟨k, v⟩ := field
    rw [insertField]
    by_cases hk : k = key
    · rw [if_pos hk]
      exact if_pos rfl
    · rw [if_neg hk]
      split
      · exact if_pos rfl
      · rw [findField, if_neg hk]
        exact ih

namespace Value

/-- `Value::get` with the name of a field. -/
def get (key : String) : Value → Option Value
  | .object fields => findField key fields
  | _ => none

/-- `Value::as_str` -/
def asStr : Value → Option String
  | .string s => some s
  | _ => none

/-- `Value::as_array` -/
def asArray : Value → Option (List Value)
  | .array elements => some elements
  | _ => none

/-- `Value::as_u64` -/
def asU64 : Value → Option UInt64
  | .number (.posInt n) => some n
  | _ => none

def isNull : Value → Bool
  | .null => true
  | _ => false

end Value

/-! ## The text of a value -/

def hexDigit (n : ℕ) : Char := "0123456789abcdef".toList.getD (n % 16) '0'

/-- The escapes of serde_json. -/
def escapeChar (c : Char) : String :=
  if c = '"' then "\\\""
  else if c = '\\' then "\\\\"
  else if c = '\n' then "\\n"
  else if c = '\r' then "\\r"
  else if c = '\t' then "\\t"
  else if c.toNat = 8 then "\\b"
  else if c.toNat = 12 then "\\f"
  else if c.toNat < 32 then
    String.ofList ['\\', 'u', '0', '0', hexDigit (c.toNat / 16), hexDigit c.toNat]
  else String.singleton c

def renderString (s : String) : String :=
  "\"" ++ String.join (s.toList.map escapeChar) ++ "\""

def JsonNumber.render : JsonNumber → String
  | .posInt n => toString n.toNat
  | .negInt n => toString n
  | .float text => text

mutual

/-- The compact text of a value, `Value::to_string`. -/
def Value.render : Value → String
  | .null => "null"
  | .bool b => toString b
  | .number n => n.render
  | .string s => renderString s
  | .array elements => "[" ++ ",".intercalate (renderElements elements) ++ "]"
  | .object fields => "\x7b" ++ ",".intercalate (renderFields fields) ++ "\x7d"

def renderElements : List Value → List String
  | [] => []
  | v :: elements => v.render :: renderElements elements

def renderFields : List (String × Value) → List String
  | [] => []
  | (k, v) :: fields => (renderString k ++ ":" ++ v.render) :: renderFields fields

end

/-- `str::parse` to an unsigned integer of 64 bits: digits behind an optional `+`. -/
def parseU64 (s : String) : Option UInt64 := do
  let n ← decimalValue (match s.toList with
    | '+' :: digits => digits
    | digits => digits)
  if n < 2 ^ 64 then some (UInt64.ofNat n) else none

end Uartbus.Model
