import Uartbus.Model.Ihex
import Uartbus.Model.RpcClient

/-!
# Uploading a program

`push_code` of upload.rs, and the system it is part of: the uploader, the client's bus, a link
with requests and answers in flight, and a device.

The statements of `push_code` are the points of `UploadPoint`; from each of them `pushCodeAt`
is the program up to the next point.  The uploader's loop thus goes through the point
`pushing` again and again.

The link keeps the order in each direction.  Any request and any answer can get lost, and
nothing is said about when the others arrive.
-/

set_option autoImplicit false

namespace Uartbus.Model

open Lib

/-- What `get_code_from_file` comes to: the one segment of the file, or the end of the process with
a status and a message. -/
inductive LoadedCode where
  | code (segment : CodeSegment)
  | exit (status : ℕ) (message : String)
  deriving DecidableEq, Repr

/-- SOURCE: upload.rs:48-65 -/
def oneSegment : List CodeSegment → LoadedCode
  | [] => .exit 3 "Ihex file doesn't contains any code."
  | [segment] => .code segment
  | _ => .exit 4 "Ihex file contains multiple code segments."

/-- The file is given by its lines.
SOURCE: upload.rs:43-66 -/
def getCodeFromFile (lines : List Text) : Except IntelHexError LoadedCode := do
  let file ← IntelHexFile.loadFile lines
  let segments ← concatSegments (← file.getCode) 100 0xff
  pure (oneSegment segments)

/-- SOURCE: upload.rs:32-33 -/
def blockSize : ℕ := 32

/-- SOURCE: ihex.rs:341-344 -/
def CodeSegment.getCodePiece (segment : CodeSegment) (offset length : ℕ) : Bytes :=
  let finish := min segment.data.length (offset + length)
  (segment.data.drop offset).take (finish - offset)

/-- `code_end` of `push_code`. -/
def CodeSegment.codeEnd (segment : CodeSegment) : ℕ := segment.startAddress + segment.data.length

section Transaction

variable {R σ : Type} (step : σ → ClientProgram (Except RpcError R × σ))

/-- The attempts that are left; `σ` holds the variables that the closure changes.
SOURCE: upload.rs:74-80 -/
def transactionLoop : ℕ → RpcError → σ → ClientProgram (Except RpcError R × σ)
  | 0, last, s => .done (.error last, s)
  | attempts + 1, _, s =>
    (step s).bind fun result =>
      match result with
      | (.error (.transaction text), s) => transactionLoop attempts (.transaction text) s
      | (.error (.posix errno), s) => .done (.error (.posix errno), s)
      | (.error (.other text), s) => .done (.error (.other text), s)
      | (.ok r, s) => .done (.ok r, s)

/-- SOURCE: upload.rs:68-81 -/
def transaction (retry : ℕ) (s : σ) : ClientProgram (Except RpcError R × σ) :=
  transactionLoop step retry (.transaction "No attempt was made") s

end Transaction

/-- The text of the error for an address 0. -/
def nullNextAddress : String :=
  "NULL nextAddress received during the code upload. Maybe the target device has been " ++
  "resetted during the code upload process.This might be caused by a broken host system " ++
  "(uart bootloader) or insufficient device power supply."

/-- The text of the error for a device that starts elsewhere. -/
def startMismatch (start : UInt16) (codeStart : ℕ) : String :=
  "Application section and code start address mismatch: APP_START region: " ++
    toString start.toNat ++ ", upload code start address: " ++ toString codeStart

/-- The body of the loop of `push_code` from where `addr` is known.
SOURCE: upload.rs:190-219 -/
def pushPiece (dev : UartBusDevice) (code : CodeSegment) (addr : UInt16) :
    ClientProgram (Except RpcError Bool × UInt16) :=
  if code.codeEnd ≤ addr.toNat then .done (.ok true, addr)
  else if addr = 0 then .done (.error (.other nullNextAddress), addr)
  else if addr.toNat < code.startAddress then .done (.ok false, addr)
  else
    let piece := code.getCodePiece (addr.toNat - code.startAddress) blockSize
    (dev.flashPushCode addr piece).bind fun result => .done <|
      match result with
      | .ok next => (.ok false, next)
      | .error (.posix errno) =>
        if errno = ENXIO then (.ok false, 0) else (.error (.posix errno), addr)
      | .error e => (.error e, addr)

/-- The body of the loop of `push_code`; 0 stands for an address that must be asked for.
SOURCE: upload.rs:185-220 -/
def pushStep (dev : UartBusDevice) (code : CodeSegment) (addr : UInt16) :
    ClientProgram (Except RpcError Bool × UInt16) :=
  if addr = 0 then
    dev.flashGetNextAddress.bind fun result =>
      match result with
      | .error e => .done (.error e, addr)
      | .ok next => pushPiece dev code next
  else pushPiece dev code addr

/-- The statements of `push_code` that talk to the device. -/
inductive UploadPoint where
  /-- `dev.flash_get_stage()`. -/
  | staging
  /-- The transaction of `dev.flash_start()`. -/
  | starting
  /-- The first `dev.flash_get_next_address()`. -/
  | locating
  /-- The head of the loop. -/
  | pushing (start addr : UInt16)
  /-- The transaction of `dev.flash_commit()`. -/
  | committing (start : UInt16)
  | returned (result : Except RpcError UInt16)

/-- From a statement of `push_code` to the next one.
SOURCE: upload.rs:159-235 -/
def pushCodeAt (dev : UartBusDevice) (code : CodeSegment) :
    UploadPoint → ClientProgram UploadPoint
  | .staging =>
    dev.flashGetStage.bind fun result => .done <|
      match result with
      | .error e => .returned (.error e)
      | .ok stage => if stage ≠ 0 then .locating else .starting
  | .starting =>
    (transaction (fun _ : Unit => dev.flashStart.bind fun r => .done (r, ()))
      dev.retryCount ()).bind fun result => .done <|
      match result with
      | (.error e, _) => .returned (.error e)
      | (.ok _, _) => .locating
  | .locating =>
    dev.flashGetNextAddress.bind fun result => .done <|
      match result with
      | .error e => .returned (.error e)
      | .ok start =>
        if start.toNat ≠ code.startAddress then
          .returned (.error (.other (startMismatch start code.startAddress)))
        else .pushing start 0
  | .pushing start addr =>
    (transaction (pushStep dev code) dev.retryCount addr).bind fun result => .done <|
      match result with
      | (.error e, _) => .returned (.error e)
      | (.ok true, _) => .committing start
      | (.ok false, addr) => .pushing start addr
  | .committing start =>
    (transaction (fun _ : Unit => dev.flashCommit.bind fun r => .done (r, ()))
      dev.retryCount ()).bind fun result => .done <|
      match result with
      | (.error e, _) => .returned (.error e)
      | (.ok _, _) => .returned (.ok start)
  | .returned result => .done (.returned result)

/-! ## The system -/

structure UploadSystem (p : Platform) where
  program : ClientProgram UploadPoint
  /-- The transaction that is waited for, and its answer when it is there. -/
  waiting : Option (ℕ × Option Bytes)
  bus : UartBus
  requests : List Packet
  answers : List Packet
  device : Flash p

inductive UploadAction where
  /-- `push_code` goes on to its next statement. -/
  | advance
  /-- The packet of the transaction at hand is sent. -/
  | send
  /-- Its sending fails. -/
  | sendFails (text : String)
  /-- `wait_response` returns the answer. -/
  | receive
  /-- `wait_response` gives up and the transaction is dropped; an answer that came in between is
  dropped with it. -/
  | giveUp
  | deliverRequest
  | deliverAnswer
  | loseRequest (i : ℕ)
  | loseAnswer (i : ℕ)
  deriving DecidableEq, Repr

/-- The answer is stored in the transaction it was given to. -/
def storeResponse (waiting : Option (ℕ × Option Bytes)) (id : Option ℕ)
    (payload : Bytes) : Option (ℕ × Option Bytes) :=
  match waiting with
  | some (waited, response) =>
    if id = some waited then some (waited, some payload) else some (waited, response)
  | none => none

def uploadStep {p : Platform} (dev : UartBusDevice) (code : CodeSegment) (s : UploadSystem p) :
    UploadAction → Option (UploadSystem p)
  | .advance =>
    match s.program with
    | .done (.returned _) => none
    | .done point => some { s with program := pushCodeAt dev code point }
    | _ => none
  | .send =>
    match s.waiting, s.program with
    | none, .ask r next =>
      let (bus, id, packet) := s.bus.newTransaction dev.address r.path r.payload true
      if r.awaited then
        some { s with
          bus := bus, waiting := some (id, none), requests := s.requests ++ [packet] }
      else
        some { s with
          bus := bus.revokePendingRequest id, requests := s.requests ++ [packet]
          program := next .sent }
    | _, _ => none
  | .sendFails text =>
    match s.waiting, s.program with
    | none, .ask r next =>
      let (bus, id, _) := s.bus.newTransaction dev.address r.path r.payload true
      some { s with bus := bus.revokePendingRequest id, program := next (.sendFailed text) }
    | _, _ => none
  | .receive =>
    match s.waiting, s.program with
    | some (id, some payload), .ask _ next =>
      some { s with
        waiting := none, bus := s.bus.revokePendingRequest id
        program := next (.response payload) }
    | _, _ => none
  | .giveUp =>
    match s.waiting, s.program with
    | some (id, _), .ask _ next =>
      some { s with
        waiting := none, bus := s.bus.revokePendingRequest id, program := next .timedOut }
    | _, _ => none
  | .deliverRequest =>
    match s.requests with
    | [] => none
    | packet :: rest =>
      let r := s.device.dispatch packet
      some { s with requests := rest, answers := s.answers ++ r.2, device := r.1 }
  | .deliverAnswer =>
    match s.answers with
    | [] => none
    | packet :: rest =>
      let (bus, id) := s.bus.processPacket packet
      some { s with
        answers := rest, bus := bus, waiting := storeResponse s.waiting id packet.payload }
  | .loseRequest i =>
    if i < s.requests.length then some { s with requests := s.requests.eraseIdx i } else none
  | .loseAnswer i =>
    if i < s.answers.length then some { s with answers := s.answers.eraseIdx i } else none

/-- `push_code` is called; nothing is in flight. -/
def UploadSystem.begin {p : Platform} (dev : UartBusDevice) (code : CodeSegment)
    (fromAddress : ℤ) (device : Flash p) : UploadSystem p :=
  { program := pushCodeAt dev code .staging
    waiting := none
    bus := { fromAddress := fromAddress, pendingRequests := [], nextId := 0 }
    requests := []
    answers := []
    device := device }

end Uartbus.Model
