import Uartbus.Lib.Utf8
import Mathlib.Algebra.Ring.Int.Defs

/-!
# Characters of the Rust standard library

What `char` and `str` do in the functions that read and write text.
-/

set_option autoImplicit false

namespace Uartbus.Model

open Lib

/-- `char::is_whitespace` -/
def isRustWhitespace (c : Char) : Bool :=
  let n := c.toNat
  (9 ≤ n && n ≤ 13) || n == 0x20 || n == 0x85 || n == 0xa0 || n == 0x1680 ||
    (0x2000 ≤ n && n ≤ 0x200a) || n == 0x2028 || n == 0x2029 || n == 0x202f || n == 0x205f ||
    n == 0x3000

/-- `str::trim` -/
def trim (text : Text) : Text :=
  ((text.dropWhile isRustWhitespace).reverse.dropWhile isRustWhitespace).reverse

/-- Text without whitespace is left as it is. -/
theorem trim_eq_self {text : Text} (h : ∀ c ∈ text, isRustWhitespace c = false) :
    trim text = text := by
  have hdrop : ∀ l : Text, (∀ c ∈ l, isRustWhitespace c = false) →
      l.dropWhile isRustWhitespace = l := by
    intro l hl
    cases l with
    | nil => rfl
    | cons c l => rw [List.dropWhile_cons_of_neg (by simp [hl c List.mem_cons_self])]
  rw [trim, hdrop text h, hdrop _ (fun c hc => h c (List.mem_reverse.mp hc)), List.reverse_reverse]

/-- A digit of `{:02X}`. -/
def upperHexDigit (n : ℕ) : Char := Char.ofNat (if n < 10 then 0x30 + n else 0x37 + n)

/-- `char::to_digit(16)` -/
def toDigit16 (c : Char) : Option ℕ :=
  if 0x30 ≤ c.toNat ∧ c.toNat ≤ 0x39 then some (c.toNat - 0x30)
  else if 0x41 ≤ c.toNat ∧ c.toNat ≤ 0x46 then some (c.toNat - 0x37)
  else if 0x61 ≤ c.toNat ∧ c.toNat ≤ 0x66 then some (c.toNat - 0x57)
  else none

/-- An optional sign; whether it is a minus, and what is behind it. -/
def splitSign : Text → Bool × Text
  | '-' :: digits => (true, digits)
  | '+' :: digits => (false, digits)
  | digits => (false, digits)

/-- Text that starts with another character than a sign is all digits. -/
theorem splitSign_eq {text : Text} (hminus : text.head? ≠ some '-')
    (hplus : text.head? ≠ some '+') : splitSign text = (false, text) := by
  unfold splitSign
  split
  · exact absurd rfl hminus
  · exact absurd rfl hplus
  · rfl

/-- The number decimal digits stand for; there is at least one, and nothing else. -/
def decimalValue (digits : Text) : Option ℕ :=
  if digits = [] ∨ !(digits.all fun c => decide ('0' ≤ c ∧ c ≤ '9')) then none
  else some (digits.foldl (fun n c => 10 * n + (c.toNat - '0'.toNat)) 0)

/-- `str::parse` for a signed integer of `bits` bits: digits behind an optional sign, and the number
in range. -/
def parseSigned (bits : ℕ) (text : Text) : Option ℤ := do
  let n ← decimalValue (splitSign text).2
  let value : ℤ := if (splitSign text).1 then -n else n
  if -2 ^ (bits - 1) ≤ value ∧ value < 2 ^ (bits - 1) then some value else none

end Uartbus.Model
