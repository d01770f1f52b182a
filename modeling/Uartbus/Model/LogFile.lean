import Uartbus.Model.Console
import Uartbus.Model.Framing
import Uartbus.Model.Time

/-!
# Log files

`ub logFile` writes the packets of the bus to files that are changed at the boundaries of an
interval (log_file.rs).  A call of `log` has no result (`none`) where it panics; what the file
system answers is given with each call.
-/

set_option autoImplicit false

namespace Uartbus.Model

open Lib

/-- `str::parse::<i64>` -/
def parseI64 (text : Text) : Option Int64 := (parseSigned 64 text).map Int64.ofInt

/-! ## Records -/

/-- SOURCE: apps/log_file.rs:46-52 -/
inductive LogFormat where
  | plain
  | binary
  deriving DecidableEq, Repr

/-- `i64::to_be_bytes` -/
def i64BeBytes (value : Int64) : Bytes :=
  (List.range 8).map fun i => (value.toUInt64 >>> UInt64.ofNat (8 * (7 - i))).toUInt8

/-- SOURCE: apps/log_file.rs:63-78 -/
def LogFormat.encode (calendar : Calendar) (format : LogFormat) (timeMs : Int64)
    (packet : Bytes) : Bytes :=
  match format with
  | .plain =>
    utf8Bytes (utcSqlTimestampMs calendar timeMs ++ ['|'] ++ formatColonData packet ++ ['\n'])
  | .binary => frameBytes (i64BeBytes timeMs ++ packet) 0

/-! ## Intervals -/

/-- SOURCE: apps/log_file.rs:80-84 -/
inductive Rotation where
  | calendar (unit : CalendarUnit)
  | seconds (value : Int64)
  deriving DecidableEq

/-- The units by their names.
SOURCE: apps/log_file.rs:88-94 -/
def CalendarUnit.ofName (name : Text) : Option CalendarUnit :=
  if name = "year".toList then some .year
  else if name = "month".toList then some .month
  else if name = "day".toList then some .day
  else if name = "hour".toList then some .hour
  else if name = "minute".toList then some .minute
  else if name = "secound".toList ∨ name = "second".toList then some .second
  else none

/-- SOURCE: apps/log_file.rs:87-105 -/
def Rotation.parse (format : Text) : Except Text Rotation :=
  match CalendarUnit.ofName format with
  | some unit => .ok (.calendar unit)
  | none =>
    match parseI64 format with
    | none => .error ("Can't parse rotation interval: ".toList ++ format)
    | some value =>
      if value < 1 then .error ("Invalid rotation interval: ".toList ++ format)
      else .ok (.seconds value)

/-- SOURCE: apps/log_file.rs:107-116 -/
def Rotation.nextCutTime (mode : Overflow) (calendar : Calendar) (rotation : Rotation)
    (now : Int64) : Option Int64 :=
  match rotation with
  | .calendar unit => localUnitStart mode calendar now unit 1
  | .seconds value => do
    let v ← MachineInt.mul mode value 1000
    let intervals ← MachineInt.div now v
    let start ← MachineInt.mul mode intervals v
    MachineInt.add mode start v

/-! ## The output -/

/-- The open file is known by its name.
SOURCE: apps/log_file.rs:119-126 -/
structure LogRotaOutput where
  filePrefix : Text
  filePostfix : Text
  rotation : Rotation
  format : LogFormat
  current : Option Text
  nextCutTime : Int64
  deriving DecidableEq

/-- What the file system answers in one call of `log`: whether the directory of the file is there
or could be made, and whether opening, writing and flushing succeed. -/
structure FileFates where
  directory : Bool
  opens : Bool
  writes : Bool
  flushes : Bool
  deriving DecidableEq, Repr

/-- A packet to be logged at a time. -/
structure LogInput where
  timeMs : Int64
  packet : Bytes
  fates : FileFates
  deriving DecidableEq

/-- The end of a call of `log`: the output afterwards, the file it has opened, what it has given to
`write_all` and whether it returns `Ok`. -/
structure LogCall where
  output : LogRotaOutput
  opened : Option Text
  written : Bytes
  ok : Bool
  deriving DecidableEq

namespace LogRotaOutput

/-- SOURCE: apps/log_file.rs:129-138 -/
def new (filePrefix filePostfix : Text) (rotation : Rotation) (format : LogFormat) :
    LogRotaOutput :=
  { filePrefix := filePrefix
    filePostfix := filePostfix
    rotation := rotation
    format := format
    current := none
    nextCutTime := 0 }

/-- SOURCE: apps/log_file.rs:140-147 -/
def fileName (calendar : Calendar) (output : LogRotaOutput) (timeMs : Int64) : Text :=
  output.filePrefix ++ localFileTimestamp calendar timeMs ++ output.filePostfix

/-- SOURCE: apps/log_file.rs:163-165 -/
def writeRecord (calendar : Calendar) (output : LogRotaOutput) (opened : Option Text)
    (input : LogInput) : LogCall :=
  { output := output
    opened := opened
    written := output.format.encode calendar input.timeMs input.packet
    ok := input.fates.writes && input.fates.flushes }

/-- SOURCE: apps/log_file.rs:149-166 -/
def log (mode : Overflow) (calendar : Calendar) (output : LogRotaOutput) (input : LogInput) :
    Option LogCall :=
  if output.current = none ∨ input.timeMs ≥ output.nextCutTime then
    let name := output.fileName calendar input.timeMs
    if input.fates.directory && input.fates.opens then do
      -- the file is open when the next cut is computed
      let cut ← output.rotation.nextCutTime mode calendar input.timeMs
      some (writeRecord calendar { output with current := some name, nextCutTime := cut }
        (some name) input)
    else
      some { output := { output with current := none }, opened := none, written := [], ok := false }
  else some (output.writeRecord calendar none input)

/-- The output after some calls, if none of them panics. -/
def logAll (mode : Overflow) (calendar : Calendar) (output : LogRotaOutput)
    (inputs : List LogInput) : Option LogRotaOutput :=
  inputs.foldlM (fun output input => (output.log mode calendar input).map LogCall.output) output

theorem logAll_cons (mode : Overflow) (calendar : Calendar) (output : LogRotaOutput)
    (input : LogInput) (inputs : List LogInput) :
    output.logAll mode calendar (input :: inputs) =
      (output.log mode calendar input).bind fun call =>
        call.output.logAll mode calendar inputs := by
  rw [logAll, List.foldlM_cons, Option.bind_eq_bind, Option.bind_map]
  rfl

end LogRotaOutput

end Uartbus.Model
