import Mathlib.Data.List.DropRight
import Uartbus.Lib.Procedure
import Uartbus.Model.Service
import Uartbus.Model.UrlEncoding

/-!
# The file access service

A directory served on the bus (rpc/ftp.rs).  Files are addressed with numbers: the number of a file
is the index of its path in the list file of the directory, which is only appended to.

The file system answers requests.  An answer says whether the operation succeeded and what it
returned; the texts of its errors are left out, since the service replaces them with error numbers.
Operations that the source makes of several calls with one result (open, seek and read) are one
request.
-/

set_option autoImplicit false

namespace Uartbus.Model

open Lib

/-- SOURCE: rpc/ftp.rs:25 -/
def listFileName : Text := ['.', 'u', 'b', 'f', 's']

/-- SOURCE: rpc/ftp.rs:28 -/
def maxFilePart : ℕ := 4096

/-- The error numbers the service answers with.
SOURCE: rpc/device.rs:10-21 -/
inductive FtpErrno where
  | enoent | eio | eacces | eexist | enotdir | emsgsize
  deriving DecidableEq, Repr

def FtpErrno.value : FtpErrno → UInt8
  | .enoent => 2
  | .eio => 5
  | .eacces => 13
  | .eexist => 17
  | .enotdir => 20
  | .emsgsize => 90

/-! ## The file system -/

/-- The name of a directory entry, as `to_string_lossy` gives it. -/
structure FileName where
  text : Text
  ne_nil : text ≠ []
  no_slash : '/' ∉ text
  ne_dot : text ≠ ['.']
  ne_dots : text ≠ ['.', '.']

inductive FileRequest where
  /-- The list file is opened, and created if there is none. -/
  | openList (path : Text)
  | readList (path : Text)
  /-- A line is appended to the list file that is open. -/
  | appendLine (line : Text)
  | exists (path : Text)
  | isFile (path : Text)
  | isDir (path : Text)
  | canRead (path : Text)
  | canWrite (path : Text)
  | readDir (path : Text)
  /-- The length of a file. -/
  | fileLength (path : Text)
  /-- The time of the last change in milliseconds. -/
  | modified (path : Text)
  | createDir (path : Text)
  | createNew (path : Text)
  | readPart (path : Text) (start length : ℕ)
  | setModified (path : Text) (time : ℕ)
  | removeDir (path : Text)
  | removeFile (path : Text)
  | setLength (path : Text) (size : ℕ)
  | append (path : Text) (data : Bytes)
  | writeAt (path : Text) (position : ℕ) (data : Bytes)
  deriving DecidableEq, Repr

structure FileAnswer where
  /-- The operation succeeded, or the question is answered with yes. -/
  ok : Bool
  names : List FileName
  number : ℕ
  bytes : Bytes

/-- `Path::join` -/
def pathJoin (path more : Text) : Text :=
  if more.head? = some '/' then more
  else if path = [] ∨ path.getLast? = some '/' then path ++ more
  else path ++ '/' :: more

/-- `Path::file_name`, or nothing. -/
def fileNameOf (path : Text) : Text :=
  match ((path.splitOn '/').filter fun c => decide (c ≠ [] ∧ c ≠ ['.'])).getLast? with
  | some c => if c = ['.', '.'] then [] else c
  | none => []

/-- The order of strings is the one of their bytes. -/
def nameLe (a b : FileName) : Bool := decide (¬ utf8Bytes b.text < utf8Bytes a.text)

/-! ## Numbers -/

/-- SOURCE: rpc/ftp.rs:79-85 -/
structure FileRegistry where
  root : Text
  /-- Index: file number. -/
  paths : List Text
  byPath : List (Text × ℕ)
  deriving DecidableEq

/-- What changes the registry, with errors `ε`. -/
abbrev RegistryProcedure (ε α : Type) : Type := Procedure FileRequest FileAnswer FileRegistry ε α

/-- SOURCE: rpc/ftp.rs:146-153 -/
def fsPath (root path : Text) : Text :=
  let relative := path.dropWhile (· = '/')
  if relative = [] then root else pathJoin root relative

/-- SOURCE: rpc/ftp.rs:70-77 -/
def sortedDirNames {σ ε : Type} (dir : Text) (error : ε) :
    Procedure FileRequest FileAnswer σ ε (List FileName) := do
  let answer ← Procedure.request (.readDir dir)
  if answer.ok then pure (answer.names.mergeSort nameLe) else Procedure.fail error

namespace FileRegistry

/-- SOURCE: rpc/ftp.rs:120-127 -/
def register (path : Text) : RegistryProcedure Unit ℕ := do
  let answer ← Procedure.request (.appendLine (urlEncode path))
  if answer.ok then
    let registry ← Procedure.read
    let index := registry.paths.length
    Procedure.write { registry with
      paths := registry.paths ++ [path]
      byPath := (path, index) :: registry.byPath }
    pure index
  else Procedure.fail ()

/-- One round of the loop of `discover`.
SOURCE: rpc/ftp.rs:132-141 -/
def discoverName (discoverDir : Text → RegistryProcedure Unit Unit) (dir : Text)
    (name : FileName) : RegistryProcedure Unit Unit := do
  let path := dir ++ '/' :: name.text
  if path = '/' :: listFileName then pure ()
  else
    let registry ← Procedure.read
    if (registry.byPath.lookup path).isNone then
      let _ ← register path
    let answer ← Procedure.request (.isDir (fsPath registry.root path))
    if answer.ok then discoverDir path else pure ()

/-- Directories nested deeper than the fuel are not looked through to the end.
SOURCE: rpc/ftp.rs:129-144 -/
def discover : ℕ → Text → RegistryProcedure Unit Unit
  | 0, _ => Procedure.spin
  | fuel + 1, dir => do
    let registry ← Procedure.read
    let names ← sortedDirNames (fsPath registry.root (if dir = [] then ['/'] else dir)) ()
    Procedure.forEach (discoverName (discover fuel) dir) names

/-- The lines of a file: without their line ends, and nothing behind the last one.
`BufRead::lines` -/
def lines (bytes : Bytes) : List Bytes :=
  let pieces := bytes.splitOn 0x0A
  let ended := pieces.dropLast.map fun line =>
    if line.getLast? = some 0x0D then line.dropLast else line
  match pieces.getLast? with
  | some last => if last = [] then ended else ended ++ [last]
  | none => ended

/-- The paths of the list file, if all of it is text.
SOURCE: rpc/ftp.rs:103-104 -/
def listedPaths (bytes : Bytes) : Option (List Text) :=
  (lines bytes).mapM fun line => (utf8Text line).map urlDecode

/-- One line of the list file.
SOURCE: rpc/ftp.rs:105-109 -/
def addListed (registry : FileRegistry) (path : Text) : FileRegistry :=
  { registry with
    byPath :=
      if (registry.byPath.lookup path).isSome then registry.byPath
      else (path, registry.paths.length) :: registry.byPath
    paths := registry.paths ++ [path] }

/-- The part of `open` behind the reading of the list file.
SOURCE: rpc/ftp.rs:112-116 -/
def complete (fuel : ℕ) : RegistryProcedure Unit Unit := do
  let registry ← Procedure.read
  if registry.paths = [] then
    let _ ← register ['/']
  discover fuel []

/-- SOURCE: rpc/ftp.rs:88-118 -/
def openAt (fuel : ℕ) (root : Text) : RegistryProcedure Unit Unit := do
  let listPath := pathJoin root listFileName
  let opened ← Procedure.request (.openList listPath)
  if opened.ok then
    let listed ← Procedure.request (.readList listPath)
    match if listed.ok then listedPaths listed.bytes else none with
    | some paths =>
      Procedure.write (paths.foldl addListed ⟨root, [], []⟩)
      complete fuel
    | none => Procedure.fail ()
  else Procedure.fail ()

/-- SOURCE: rpc/ftp.rs:155-168 -/
def numberOf (path : Text) : RegistryProcedure FtpErrno ℕ := do
  let path := if path = [] then ['/'] else path
  let registry ← Procedure.read
  match registry.byPath.lookup path with
  | some index => pure index
  | none =>
    if listFileName ∈ path.splitOn '/' then Procedure.fail .enoent
    else
      let answer ← Procedure.request (.exists (fsPath registry.root path))
      if answer.ok then
        (register path).onPart id (fun s _ => s) fun _ => .eio
      else Procedure.fail .enoent

/-- `BigInt::to_usize` and `BigInt::to_u64` -/
def toU64 (value : ℤ) : Option ℕ :=
  if 0 ≤ value ∧ value < 2 ^ 64 then some value.toNat else none

/-- SOURCE: rpc/ftp.rs:170-176 -/
def pathOf (registry : FileRegistry) (fileNo : ℤ) : Option Text :=
  (toU64 fileNo).bind fun index => registry.paths[index]?

end FileRegistry

/-! ## The service -/

/-- SOURCE: rpc/ftp.rs:183-194 -/
def childPath (dir name : Text) : Except FtpErrno Text :=
  if name = [] ∨ name = ['.'] ∨ name = ['.', '.'] ∨ name = listFileName ∨ '/' ∈ name then
    .error .eacces
  else .ok (dir.rdropWhile (· = '/') ++ '/' :: name)

/-- SOURCE: rpc/service.rs:228-237 -/
structure UbString where
  bytes : Bytes
  deriving DecidableEq, Repr

def UbString.new (string : Text) : UbString := ⟨utf8Bytes string⟩

/-- A request that is being served: its parameters and the registry. -/
structure FtpState where
  params : PacketReader
  registry : FileRegistry

abbrev FtpProcedure (α : Type) : Type :=
  Procedure FileRequest FileAnswer FtpState ServiceError α

namespace Ftp

open FileRegistry

abbrev Reply : Type := ServiceReply UbString

def posix {α : Type} (errno : FtpErrno) : FtpProcedure α := Procedure.fail (.posix errno.value)

/-- SOURCE: rpc/ftp.rs:205-207 -/
def vu (value : ℕ) : Reply := .value (.vUnsigned value)

/-- SOURCE: rpc/ftp.rs:209-211 -/
def boolean (value : Bool) : Reply := .value (.bool value)

/-- SOURCE: rpc/service.rs:218-225 -/
def readParam (ty : RpcType) : FtpProcedure RpcValue := do
  let state ← Procedure.read
  match readType ty state.params with
  | .value value params =>
    Procedure.write { state with params := params }
    pure value
  | .error err => Procedure.fail (.internal ("can't read parameter: " ++ err.text))
  | .diverges => Procedure.spin

/-- SOURCE: rpc/ftp.rs:213-219 -/
def readNumber (ty : RpcType) : FtpProcedure ℤ := do
  match ← readParam ty with
  | .vUnsigned value | .vSigned value => pure value
  | _ => Procedure.fail (.internal "number expected")

/-- SOURCE: rpc/ftp.rs:221-226 -/
def readString : FtpProcedure Text := do
  match ← readParam .string with
  | .string value => pure value.toList
  | _ => Procedure.fail (.internal "string expected")

/-- A yes or no of the file system. -/
def asks (request : FileRequest) : FtpProcedure Bool := do
  let answer ← Procedure.request request
  pure answer.ok

def numbered (path : Text) : FtpProcedure ℕ :=
  (numberOf path).onPart FtpState.registry
    (fun registry state => { state with registry := registry })
    fun errno => .posix errno.value

def child (dir name : Text) : FtpProcedure Text :=
  match childPath dir name with
  | .ok path => pure path
  | .error errno => posix errno

/-- The part of a path before its last slash.
SOURCE: rpc/ftp.rs:253 -/
def parentOf (path : Text) : Text := (path.rdropWhile (· ≠ '/')).dropLast

/-- SOURCE: rpc/ftp.rs:249-255 -/
def parent (path : Text) : FtpProcedure Reply :=
  if path = ['/'] then posix .enoent else do
    let number ← numbered (parentOf path)
    pure (vu number)

/-- SOURCE: rpc/ftp.rs:257-263 -/
def kind (file : Text) : FtpProcedure Reply := do
  if ← asks (.isFile file) then pure (.value (.s8 1))
  else if ← asks (.isDir file) then pure (.value (.s8 2))
  else pure (.value (.s8 127))

/-- SOURCE: rpc/ftp.rs:273-283 -/
def size (file : Text) : FtpProcedure Reply := do
  if ← asks (.isDir file) then
    let names ← sortedDirNames file (.posix FtpErrno.eio.value)
    pure (vu names.length)
  else
    let answer ← Procedure.request (.fileLength file)
    if answer.ok then pure (vu answer.number) else posix .enoent

/-- The loop of function 6.
SOURCE: rpc/ftp.rs:287-293 -/
def listNumbers (path : Text) : List FileName → List RpcValue → FtpProcedure (List RpcValue)
  | [], numbers => pure numbers
  | name :: names, numbers => do
    let path' ← child path name.text
    let number ← numbered path'
    listNumbers path names (numbers ++ [.vUnsigned number])

/-- SOURCE: rpc/ftp.rs:285-295 -/
def list (path file : Text) : FtpProcedure Reply := do
  let names ← sortedDirNames file (.posix FtpErrno.enotdir.value)
  let numbers ← listNumbers path (names.filter fun name => decide (name.text ≠ listFileName)) []
  pure (.value (.array numbers))

/-- The path of a child is put together without `child_path` here.
SOURCE: rpc/ftp.rs:297-309 -/
def nthChild (path file : Text) : FtpProcedure Reply := do
  let index ← readNumber .vUnsigned
  if ← asks (.isDir file) then
    let names ← sortedDirNames file (.posix FtpErrno.enotdir.value)
    match (toU64 index).bind fun i => names[i]? with
    | some name =>
      let number ← numbered (path.rdropWhile (· = '/') ++ '/' :: name.text)
      pure (vu number)
    | none => posix .enotdir
  else posix .enotdir

/-- SOURCE: rpc/ftp.rs:315-322 -/
def lastModified (file : Text) : FtpProcedure Reply := do
  let answer ← Procedure.request (.modified file)
  pure (vu (if answer.ok then answer.number % 2 ^ 64 else 0))

/-- SOURCE: rpc/ftp.rs:325-343 -/
def readFile (file : Text) : FtpProcedure Reply := do
  let start ← readNumber .vUnsigned
  let length ← readNumber .vUnsigned
  let length := (toU64 length).getD (2 ^ 64 - 1)
  if maxFilePart < length then posix .emsgsize
  else
    let answer ← Procedure.request (.readPart file ((toU64 start).getD (2 ^ 64 - 1)) length)
    if answer.ok then pure (.value (.bytes answer.bytes)) else posix .eio

/-- The path a new file or directory gets, if it is free.
SOURCE: rpc/ftp.rs:352-356 -/
def freeChild (path name : Text) : FtpProcedure (Text × Text) := do
  let path' ← child path name
  let state ← Procedure.read
  let target := fsPath state.registry.root path'
  if ← asks (.exists target) then posix .eexist else pure (path', target)

/-- SOURCE: rpc/ftp.rs:358-368 -/
def finishCreate (path : Text) (created : FileRequest) : FtpProcedure Reply := do
  if ← asks created then
    let number ← numbered path
    pure (vu number)
  else posix .eacces

/-- Function 30.
SOURCE: rpc/ftp.rs:346-369 -/
def makeDir (path file : Text) : FtpProcedure Reply := do
  let name ← readString
  if ← asks (.isDir file) then
    let created ← freeChild path name
    finishCreate created.1 (.createDir created.2)
  else posix .enotdir

/-- Function 31; it does not look whether the file is a directory.
SOURCE: rpc/ftp.rs:346-369 -/
def createFile (path : Text) : FtpProcedure Reply := do
  let name ← readString
  let created ← freeChild path name
  finishCreate created.1 (.createNew created.2)

/-- SOURCE: rpc/ftp.rs:371-381 -/
def setLastModified (file : Text) : FtpProcedure Reply := do
  let time ← readNumber .vUnsigned
  let done ← asks (.setModified file ((toU64 time).getD 0))
  pure (boolean done)

/-- SOURCE: rpc/ftp.rs:383-390 -/
def delete (file : Text) : FtpProcedure Reply := do
  let dir ← asks (.isDir file)
  let deleted ← asks (if dir then .removeDir file else .removeFile file)
  pure (boolean deleted)

/-- SOURCE: rpc/ftp.rs:403-411 -/
def truncate (file : Text) : FtpProcedure Reply := do
  let size ← readNumber .vUnsigned
  let answer ← Procedure.request (.setLength file ((toU64 size).getD 0))
  if answer.ok then pure (vu answer.number) else posix .enoent

/-- SOURCE: rpc/ftp.rs:413-437 -/
def writeFile (file : Text) : FtpProcedure Reply := do
  let position ← readNumber .vSigned
  let data ← readParam .bytes
  let data := match data with
    | .bytes data => data
    | _ => []
  -- a negative position: append to the end
  let answer ← Procedure.request
    (if position < 0 then .append file data else .writeAt file ((toU64 position).getD 0) data)
  if answer.ok then pure (vu answer.number)
  else posix (if position < 0 then .eacces else .enoent)

/-- What the function with the index does with a file.
SOURCE: rpc/ftp.rs:245-440 -/
def function (index : UInt8) (path file : Text) : FtpProcedure Reply :=
  match index.toNat with
  | 1 => do pure (boolean (← asks (.exists file)))
  | 2 => parent path
  | 3 => kind file
  | 4 => pure (.subNamespace (UbString.new (fileNameOf file)))
  | 5 => size file
  | 6 => list path file
  | 7 => nthChild path file
  | 8 => do pure (boolean (← asks (.canRead file)))
  | 9 => do pure (boolean (← asks (.canWrite file)))
  | 10 => pure (vu 0)
  | 11 => lastModified file
  | 20 => readFile file
  | 30 => makeDir path file
  | 31 => createFile path
  | 32 => setLastModified file
  | 33 => delete file
  | 34 => do
    let _ ← readNumber .vUnsigned
    pure .void
  | 35 => do
    let _ ← readString
    pure .void
  | 40 => truncate file
  | 41 => writeFile file
  | _ => Procedure.fail (.internal ("no function " ++ toString index))

/-- SOURCE: rpc/ftp.rs:236-441 -/
def serve (index : UInt8) : FtpProcedure Reply := do
  let fileNo ← readNumber .vUnsigned
  let state ← Procedure.read
  match state.registry.pathOf fileNo with
  | some path => function index path (fsPath state.registry.root path)
  | none => posix .enoent

/-- SOURCE: rpc/ftp.rs:444-446 -/
def functions : Bytes :=
  [1, 2, 3, 4, 5, 6, 7, 8, 9, 10, 11, 20, 30, 31, 32, 33, 34, 35, 40, 41]

/-- A call of the service; none if there is no such function.
SOURCE: rpc/ftp.rs:448-455 -/
def call (index : UInt8) : Option (FtpProcedure Reply) :=
  if index ∈ functions then some (serve index) else none

/-- Requests, each with its function index and parameter bytes, one after another. -/
def serveAll : List (UInt8 × Bytes) → FileRegistry →
    Program FileRequest FileAnswer FileRegistry
  | [], registry => .done registry
  | (index, params) :: requests, registry =>
    match call index with
    | none => serveAll requests registry
    | some m => (m ⟨⟨params, 0⟩, registry⟩).bind fun r => serveAll requests r.2.registry

end Ftp

end Uartbus.Model
