import Mathlib.Algebra.GroupWithZero.Nat
import Mathlib.Data.List.Sort
import Uartbus.Lib.MachineInt
import Uartbus.Model.Text

/-!
# Intel HEX files

The lines of an Intel HEX file, the code segments they describe and the way back (ihex.rs).  The
addresses of segments are `u64` values: `+=` is taken modulo `2^64` and `saturating_add` stops at
`2^64 - 1`.  The sum of a checksum is a `u16` that wraps, as it does in the release build; the
functions that compute it are there for every build too (`checksumIn`).
-/

set_option autoImplicit false

namespace Uartbus.Model

open Lib

/-- The errors of the functions below.
SOURCE: ihex.rs:7-18 -/
inductive IntelHexError where
  | invalidLine (line : Text)
  | checksumMismatch (line : Text) (actual expected : UInt8)
  | intersectingData (text : String)
  deriving DecidableEq, Repr

/-! ## Lines -/

/-- SOURCE: ihex.rs:53-61 -/
inductive RecordType where
  | data
  | endOfFile
  | extendedSegmentAddress
  | extendedLinearAddress
  | startLinearAddress
  | unknown (value : UInt8)
  deriving DecidableEq, Repr

namespace RecordType

/-- SOURCE: ihex.rs:64-73 -/
def fromU8 (value : UInt8) : RecordType :=
  if value = 0 then .data
  else if value = 1 then .endOfFile
  else if value = 2 then .extendedSegmentAddress
  else if value = 3 then .extendedLinearAddress
  else if value = 4 then .startLinearAddress
  else .unknown value

/-- SOURCE: ihex.rs:75-84 -/
def asU8 : RecordType → UInt8
  | .data => 0
  | .endOfFile => 1
  | .extendedSegmentAddress => 2
  | .extendedLinearAddress => 3
  | .startLinearAddress => 4
  | .unknown value => value

end RecordType

/-- SOURCE: ihex.rs:87-95 -/
structure IntelHexLine where
  raw : Bytes
  length : ℕ
  address : UInt32
  recordType : RecordType
  data : Bytes
  checksum : UInt8
  deriving DecidableEq, Repr

/-- SOURCE: ihex.rs:436-439 -/
def checksum (data : Bytes) (fromIndex toIndex : ℕ) : UInt8 :=
  let sum : UInt16 :=
    ((data.take toIndex).drop fromIndex).foldl (fun sum byte => sum + byte.toUInt16) 0
  ((~~~sum &&& 0xff) + 1).toUInt8

/-- The loop over the pairs of characters.  A single character at the end, which would be an index
out of range, is kept out by the check of the length.
SOURCE: ihex.rs:449-457 -/
def hexPairs (hex : Text) : Text → Except IntelHexError Bytes
  | high :: low :: rest =>
    match toDigit16 high, toDigit16 low with
    | some h, some l => do
      let bytes ← hexPairs hex rest
      pure ((UInt8.ofNat h <<< 4 ||| UInt8.ofNat l) :: bytes)
    | _, _ => .error (.invalidLine hex)
  | [_] => .error (.invalidLine hex)
  | [] => .ok []

/-- SOURCE: ihex.rs:441-460 -/
def fromHex (hex : Text) : Except IntelHexError Bytes :=
  if (utf8Bytes hex).length % 2 ≠ 0 then .error (.invalidLine hex) else hexPairs hex hex

/-- SOURCE: ihex.rs:462-470 -/
def toHex (data : Bytes) : Text :=
  data.flatMap fun byte => [upperHexDigit (byte.toNat / 16), upperHexDigit (byte.toNat % 16)]

namespace IntelHexLine

/-- SOURCE: ihex.rs:110-124 -/
def ofRaw (raw : Bytes) : IntelHexLine :=
  { raw := raw
    length := (raw.getD 0 0).toNat
    address := (raw.getD 1 0).toUInt32 <<< 8 ||| (raw.getD 2 0).toUInt32
    recordType := RecordType.fromU8 (raw.getD 3 0)
    data := (raw.take (raw.length - 1)).drop 4
    checksum := raw.getLastD 0 }

/-- SOURCE: ihex.rs:98-125 -/
def new (line : Text) : Except IntelHexError IntelHexLine :=
  let trimmed := trim line
  match trimmed with
  | ':' :: hex =>
    if (utf8Bytes hex).length < 10 ∨ hex.any fun ch => (toDigit16 ch).isNone then
      .error (.invalidLine trimmed)
    else do
      let raw ← fromHex hex
      pure (ofRaw raw)
  | _ => .error (.invalidLine trimmed)

/-- SOURCE: ihex.rs:127-129 -/
def calcChecksum (line : IntelHexLine) : UInt8 :=
  Model.checksum line.raw 0 (line.raw.length - 1)

/-- SOURCE: ihex.rs:131-133 -/
def toLineString (line : IntelHexLine) : Text := ':' :: (toHex line.raw).map Char.toUpper

/-- SOURCE: ihex.rs:159-168 -/
def toRawByData (line : IntelHexLine) : Bytes :=
  [UInt8.ofNat line.data.length, ((line.address >>> 8) &&& 0xff).toUInt8,
    (line.address &&& 0xff).toUInt8, line.recordType.asU8] ++ line.data ++ [line.checksum]

end IntelHexLine

/-! ## Files -/

/-- SOURCE: ihex.rs:171-174 -/
structure IntelHexFile where
  lines : List IntelHexLine
  deriving DecidableEq, Repr

namespace IntelHexFile

/-- SOURCE: ihex.rs:181-189 -/
def fromLines (lines : List Text) : Except IntelHexError IntelHexFile := do
  let lines ← lines.mapM IntelHexLine.new
  pure { lines := lines }

/-- SOURCE: ihex.rs:208-223 -/
def assertValid (file : IntelHexFile) : Except IntelHexError Unit :=
  match file.lines.find? fun line => line.checksum ≠ line.calcChecksum with
  | some line => .error (.checksumMismatch line.toLineString line.checksum line.calcChecksum)
  | none => .ok ()

/-- The lines of a file that has been read; blank ones are left out.
SOURCE: ihex.rs:191-206 -/
def loadFile (lines : List Text) : Except IntelHexError IntelHexFile := do
  let file ← fromLines (lines.filter fun line => !(trim line).isEmpty)
  file.assertValid
  pure file

/-- The line `IntelHexLine::new(":00000001FF")`.
SOURCE: ihex.rs:225-227 -/
def createEofLine : IntelHexLine := IntelHexLine.ofRaw [0x00, 0x00, 0x00, 0x01, 0xff]

/-- SOURCE: ihex.rs:229-243 -/
def createDataLine (address : UInt32) (data : Bytes) : IntelHexLine :=
  let line : IntelHexLine :=
    { raw := [], length := data.length, address := address, recordType := .data, data := data
      checksum := 0 }
  let line := { line with raw := line.toRawByData }
  let line := { line with checksum := checksum line.raw 0 (line.raw.length - 1) }
  { line with raw := line.toRawByData }

end IntelHexFile

/-! ## Code segments -/

/-- SOURCE: ihex.rs:309-315 -/
structure CodeSegment where
  startAddress : ℕ
  endAddress : ℕ
  data : Bytes
  building : Bool
  deriving DecidableEq, Repr

/-- `u64::saturating_add`. -/
def saturatingAdd (a b : ℕ) : ℕ := min (a + b) (2 ^ 64 - 1)

/-- `format!("{:#x}", n)`. -/
def hexText (n : ℕ) : String := "0x" ++ String.ofList (Nat.toDigits 16 n)

namespace CodeSegment

/-- SOURCE: ihex.rs:318-325 -/
def new (startAddress : ℕ) : CodeSegment :=
  { startAddress := startAddress, endAddress := startAddress, data := [], building := true }

/-- SOURCE: ihex.rs:327-331 -/
def appendCode (segment : CodeSegment) (data : Bytes) : CodeSegment :=
  { segment with
    data := segment.data ++ data
    endAddress := (segment.endAddress + data.length) % 2 ^ 64 }

/-- SOURCE: ihex.rs:333-335 -/
def isMiddleOf (segment : CodeSegment) (address : ℕ) : Bool :=
  decide (segment.startAddress < address ∧ address < segment.endAddress)

/-- SOURCE: ihex.rs:337-339 -/
def endCodeWrite (segment : CodeSegment) : CodeSegment := { segment with building := false }

end CodeSegment

/-! ## From lines to segments -/

/-- The code goes to the first segment that ends where it starts; a new one is pushed when there is
none.
SOURCE: ihex.rs:277-287 -/
def placeData (start : ℕ) (data : Bytes) : List CodeSegment → List CodeSegment
  | [] => [(CodeSegment.new start).appendCode data]
  | segment :: rest =>
    if start = segment.endAddress then segment.appendCode data :: rest
    else segment :: placeData start data rest

/-- The loop body for a data record.
SOURCE: ihex.rs:269-287 -/
def addDataLine (segments : List CodeSegment) (line : IntelHexLine) :
    Except IntelHexError (List CodeSegment) :=
  let start := line.address.toNat
  if segments.any fun segment => segment.isMiddleOf start then
    .error (.intersectingData (String.ofList line.toLineString))
  else .ok (placeData start line.data segments)

/-- SOURCE: ihex.rs:260-288 -/
def getCodeLoop : List IntelHexLine → List CodeSegment → Except IntelHexError (List CodeSegment)
  | [], segments => .ok segments
  | line :: lines, segments =>
    if line.recordType = .endOfFile then .ok segments
    else if line.recordType ≠ .data then getCodeLoop lines segments
    else do
      let segments ← addDataLine segments line
      getCodeLoop lines segments

/-- SOURCE: ihex.rs:257-295 -/
def IntelHexFile.getCode (file : IntelHexFile) : Except IntelHexError (List CodeSegment) := do
  let segments ← getCodeLoop file.lines []
  pure (segments.map CodeSegment.endCodeWrite)

/-! ## From segments to lines -/

/-- The loop over the data of a segment.  Every round takes a byte at least, so as many rounds as
there are bytes are enough.
SOURCE: ihex.rs:423-428 -/
def segmentLines (data : Bytes) : ℕ → ℕ → ℕ → List IntelHexLine
  | 0, _, _ => []
  | fuel + 1, addr, offset =>
    if offset < data.length then
      let next := min (offset + 16) data.length
      IntelHexFile.createDataLine (UInt32.ofNat addr) ((data.take next).drop offset) ::
        segmentLines data fuel ((addr + (next - offset)) % 2 ^ 64) next
    else []

/-- SOURCE: ihex.rs:416-434 -/
def fromSegments (codes : List CodeSegment) : Except IntelHexError IntelHexFile := do
  let file : IntelHexFile :=
    { lines := codes.flatMap (fun code =>
        segmentLines code.data code.data.length code.startAddress 0) ++
          [IntelHexFile.createEofLine] }
  file.assertValid
  pure file

/-! ## Concatenation -/

/-- The end of the loop body: `diff` padding bytes, then the code.  The padding goes to `data`
only.
SOURCE: ihex.rs:401-406 -/
def padAndAppend (paddingByte : UInt8) (code segment : CodeSegment) : CodeSegment :=
  let diff := code.startAddress - segment.endAddress
  { segment with data := segment.data ++ List.replicate diff paddingByte }.appendCode code.data

/-- The segment the code goes to is the first one that ends below `start_address + max_gap`; a
new one is pushed when there is none.
SOURCE: ihex.rs:389-406 -/
def placeCode (maxGap : ℕ) (paddingByte : UInt8) (code : CodeSegment) :
    List CodeSegment → List CodeSegment
  | [] => [padAndAppend paddingByte code (CodeSegment.new code.startAddress)]
  | segment :: rest =>
    if saturatingAdd code.startAddress maxGap > segment.endAddress then
      padAndAppend paddingByte code segment :: rest
    else
      segment :: placeCode maxGap paddingByte code rest

/-- The loop body.
SOURCE: ihex.rs:379-407 -/
def concatStep (maxGap : ℕ) (paddingByte : UInt8) (ret : List CodeSegment) (code : CodeSegment) :
    Except IntelHexError (List CodeSegment) :=
  match ret.find? fun segment => segment.isMiddleOf code.startAddress with
  | some segment => .error (.intersectingData (hexText segment.startAddress))
  | none => .ok (placeCode maxGap paddingByte code ret)

/-- SOURCE: ihex.rs:367-414 -/
def concatSegments (codes : List CodeSegment) (maxGap : ℕ) (paddingByte : UInt8) :
    Except IntelHexError (List CodeSegment) :=
  if codes.length < 2 then .ok codes
  else do
    -- sort_by_key keeps the order of equal keys, as this sort does
    let sorted := codes.insertionSort fun a b => a.startAddress ≤ b.startAddress
    let ret ← sorted.foldlM (concatStep maxGap paddingByte) []
    pure (ret.map CodeSegment.endCodeWrite)

end Uartbus.Model
