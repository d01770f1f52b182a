import Uartbus.Model.RpcTools
import Uartbus.Model.Text
import Mathlib.Algebra.Ring.Int.Defs

/-!
# The console

The lines of the console (console.rs): addresses, questions about them, and packets as numbers with
colons between them.
-/

set_option autoImplicit false

namespace Uartbus.Model

open Lib

/-- `str::parse::<i32>` -/
def parseI32 (text : Text) : Option Int32 := (parseSigned 32 text).map Int32.ofInt

/-- The low 8 bits of every number.
SOURCE: tools.rs:91-97 -/
def parseColonData (data : Text) : Option Bytes :=
  (data.splitOn ':').mapM fun number =>
    (parseI32 number).map fun value => (value &&& 0xff).toUInt32.toUInt8

/-- `u8::to_string` -/
def byteText (byte : UInt8) : Text := Nat.toDigits 10 byte.toNat

/-- SOURCE: tools.rs:99-104 -/
def formatColonData (data : Bytes) : Text := [':'].intercalate (data.map byteText)

/-- A packet whose checksum is wrong is marked.
SOURCE: tools.rs:106-112 -/
def formatColonDataWithValidation (data : Bytes) : Text :=
  if data ≠ [] ∧ some (crc8Prefix data (data.length - 1)) = data.getLast? then formatColonData data
  else '!' :: formatColonData data

/-- SOURCE: console.rs:16-24 -/
inductive ConsoleInquiry where
  | noOp
  | sendPacket
  | queryAddressFrom
  | queryAddressTo
  | needHelp
  | unknownCommand
  deriving DecidableEq, Repr

/-- SOURCE: console.rs:26-33 -/
structure ConsoleResponse where
  inquiry : ConsoleInquiry
  data : Option Bytes
  message : Option Text
  fromAddress : Int32
  toAddress : Int32
  deriving DecidableEq

namespace ConsoleResponse

/-- SOURCE: console.rs:36-44 -/
def new (inquiry : ConsoleInquiry) (data : Option Bytes) (message : Option Text) :
    ConsoleResponse :=
  { inquiry, data, message, fromAddress := 0, toAddress := 0 }

/-- SOURCE: console.rs:46-60 -/
def withAddresses (inquiry : ConsoleInquiry) (data : Option Bytes) (message : Option Text)
    (fromAddress toAddress : Int32) : ConsoleResponse :=
  { inquiry, data, message, fromAddress, toAddress }

/-- SOURCE: console.rs:74-82 -/
def toPacket (response : ConsoleResponse) : Except PackError Bytes := do
  let assembler ← PacketAssembler.writeAddressing [] response.fromAddress.toInt
    response.toAddress.toInt
  let assembler := match response.data with
    | some data => assembler ++ data
    | none => assembler
  pure (PacketAssembler.appendCrc8 assembler)

end ConsoleResponse

/-- SOURCE: console.rs:85-89 -/
structure UartbusConsoleEnv where
  addressFrom : Int32
  addressTo : Int32
  deriving DecidableEq

namespace UartbusConsoleEnv

/-- SOURCE: console.rs:98-103 -/
def new : UartbusConsoleEnv := ⟨0, 0⟩

/-- SOURCE: console.rs:170-172 -/
def setFromAddress (env : UartbusConsoleEnv) (address : Int32) : UartbusConsoleEnv :=
  { env with addressFrom := address }

/-- SOURCE: console.rs:174-176 -/
def setToAddress (env : UartbusConsoleEnv) (address : Int32) : UartbusConsoleEnv :=
  { env with addressTo := address }

/-- `i32::to_string` -/
def addressText (address : Int32) : Text := (toString address.toInt).toList

/-- SOURCE: console.rs:166-168 -/
def unrecognisedCmd (line : Text) : ConsoleResponse :=
  ConsoleResponse.new .unknownCommand none (some line)

/-- A line that starts with a question mark.
SOURCE: console.rs:131-151 -/
def answerQuestion (env : UartbusConsoleEnv) (line : Text) : ConsoleResponse :=
  if line = ['?'] then ConsoleResponse.new .needHelp none none
  else if (utf8Bytes line).length = 2 then
    if (utf8Bytes line).getD 1 0 = 0x3E then
      ConsoleResponse.new .queryAddressFrom none (some (addressText env.addressFrom))
    else if (utf8Bytes line).getD 1 0 = 0x3C then
      ConsoleResponse.new .queryAddressTo none (some (addressText env.addressTo))
    else unrecognisedCmd line
  else unrecognisedCmd line

/-- The rest of `feed`, behind the lines that set an address.
SOURCE: console.rs:130-163 -/
def feedRest (env : UartbusConsoleEnv) (line : Text) : ConsoleResponse :=
  if line.head? = some '?' then env.answerQuestion line
  else
    match parseColonData line with
    | some data =>
      ConsoleResponse.withAddresses .sendPacket (some data) none env.addressFrom env.addressTo
    | none => unrecognisedCmd line

/-- SOURCE: console.rs:105-164 -/
def feed (env : UartbusConsoleEnv) (line : Text) : ConsoleResponse × UartbusConsoleEnv :=
  match trim line with
  | [] => (ConsoleResponse.new .noOp none none, env)
  | '>' :: rest =>
    match parseI32 (trim rest) with
    | some address =>
      let env := env.setFromAddress address
      (env.feedRest ['?', '>'], env)
    | none => (unrecognisedCmd ('>' :: rest), env)
  | '<' :: rest =>
    match parseI32 (trim rest) with
    | some address =>
      let env := env.setToAddress address
      (env.feedRest ['?', '<'], env)
    | none => (unrecognisedCmd ('<' :: rest), env)
  | line => (env.feedRest line, env)

/-- The console after some lines. -/
def feedAll (env : UartbusConsoleEnv) (lines : List Text) : UartbusConsoleEnv :=
  lines.foldl (fun env line => (env.feed line).2) env

end UartbusConsoleEnv

end Uartbus.Model
