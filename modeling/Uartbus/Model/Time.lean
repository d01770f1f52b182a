import Uartbus.Lib.MachineInt
import Uartbus.Lib.Utf8

/-!
# Wall clock time

The timestamps of the logs and the boundaries of calendar units (time.rs).  The three functions of
the C library that know the calendar and the time zone are given from outside; of `struct tm` there
are the fields that the code reads or writes.
-/

set_option autoImplicit false

namespace Uartbus.Model

open Lib

/-- `struct tm` -/
structure Tm where
  sec : Int32
  min : Int32
  hour : Int32
  mday : Int32
  mon : Int32
  year : Int32
  isdst : Int32
  deriving DecidableEq, Repr

/-- The C library: `localtime_r` and `gmtime_r` with the `tm` they leave, and `mktime`. -/
structure Calendar where
  localtime : Int64 → Tm
  gmtime : Int64 → Tm
  mktime : Tm → Int64

/-- SOURCE: time.rs:12-24 -/
def brokenDown (calendar : Calendar) (ms : Int64) (isLocal : Bool) : Tm :=
  let secs := Int64.ofInt (ms.toInt / 1000)
  if isLocal then calendar.localtime secs else calendar.gmtime secs

/-- `{:0width}` of an integer: the sign counts, and stands before the zeros. -/
def zeroPadded (width : ℕ) (n : ℤ) : Text :=
  let digits := Nat.toDigits 10 n.natAbs
  if n < 0 then '-' :: (List.replicate (width - 1 - digits.length) '0' ++ digits)
  else List.replicate (width - digits.length) '0' ++ digits

/-- SOURCE: time.rs:26-39 -/
def utcSqlTimestampMs (calendar : Calendar) (ms : Int64) : Text :=
  let tm := brokenDown calendar ms false
  zeroPadded 4 (tm.year + 1900).toInt ++ ['-'] ++ zeroPadded 2 (tm.mon + 1).toInt ++ ['-'] ++
    zeroPadded 2 tm.mday.toInt ++ [' '] ++ zeroPadded 2 tm.hour.toInt ++ [':'] ++
    zeroPadded 2 tm.min.toInt ++ [':'] ++ zeroPadded 2 tm.sec.toInt ++ ['.'] ++
    zeroPadded 3 (ms.toInt % 1000) ++ ['U']

/-- SOURCE: time.rs:41-54 -/
def localFileTimestamp (calendar : Calendar) (ms : Int64) : Text :=
  let tm := brokenDown calendar ms true
  zeroPadded 4 (tm.year + 1900).toInt ++ ['-'] ++ zeroPadded 2 (tm.mon + 1).toInt ++ ['-'] ++
    zeroPadded 2 tm.mday.toInt ++ ['_'] ++ zeroPadded 2 tm.hour.toInt ++ ['-'] ++
    zeroPadded 2 tm.min.toInt ++ ['-'] ++ zeroPadded 2 tm.sec.toInt ++ ['_'] ++
    zeroPadded 3 (ms.toInt % 1000)

/-- SOURCE: time.rs:56-64 -/
inductive CalendarUnit where
  | year
  | month
  | day
  | hour
  | minute
  | second
  deriving DecidableEq, Repr

/-- The order of the units.
SOURCE: time.rs:103-113 -/
def CalendarUnit.rank : CalendarUnit → ℕ
  | .year => 0
  | .month => 1
  | .day => 2
  | .hour => 3
  | .minute => 4
  | .second => 5

/-- The fields below the unit are set to their first value.
SOURCE: time.rs:70-84 -/
def CalendarUnit.startOf (unit : CalendarUnit) (tm : Tm) : Tm :=
  let tm := if unit.rank ≤ CalendarUnit.minute.rank then { tm with sec := 0 } else tm
  let tm := if unit.rank ≤ CalendarUnit.hour.rank then { tm with min := 0 } else tm
  let tm := if unit.rank ≤ CalendarUnit.day.rank then { tm with hour := 0 } else tm
  let tm := if unit.rank ≤ CalendarUnit.month.rank then { tm with mday := 1 } else tm
  if unit.rank ≤ CalendarUnit.year.rank then { tm with mon := 0 } else tm

/-- SOURCE: time.rs:86-93 -/
def CalendarUnit.move (mode : Overflow) (unit : CalendarUnit) (tm : Tm) (offset : Int32) :
    Option Tm :=
  match unit with
  | .year => (MachineInt.add mode tm.year offset).map fun year => { tm with year := year }
  | .month => (MachineInt.add mode tm.mon offset).map fun mon => { tm with mon := mon }
  | .day => (MachineInt.add mode tm.mday offset).map fun mday => { tm with mday := mday }
  | .hour => (MachineInt.add mode tm.hour offset).map fun hour => { tm with hour := hour }
  | .minute => (MachineInt.add mode tm.min offset).map fun min => { tm with min := min }
  | .second => (MachineInt.add mode tm.sec offset).map fun sec => { tm with sec := sec }

/-- SOURCE: time.rs:66-101 -/
def localUnitStart (mode : Overflow) (calendar : Calendar) (ms : Int64) (unit : CalendarUnit)
    (offset : Int32) : Option Int64 := do
  let tm ← unit.move mode (unit.startOf (brokenDown calendar ms true)) offset
  MachineInt.mul mode (calendar.mktime { tm with isdst := -1 }) 1000

end Uartbus.Model
