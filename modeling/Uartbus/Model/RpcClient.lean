import Uartbus.Lib.Program
import Uartbus.Model.Bootloader
import Uartbus.Model.RpcTools

/-!
# Requests and their answers

The client's view of the bus: `UartBus` pairs received packets with the transactions that wait
for them, and `UartBusDevice` calls the functions of a device.

A call is a program that asks for one transaction after another; what a transaction comes to
(an answer, no answer in time, a failed send) is the outcome.  A transaction is known by a
number here where the source compares `Arc` pointers.
-/

set_option autoImplicit false

namespace Uartbus.Model

open Lib

/-- SOURCE: rpc/bus.rs:33-40 -/
structure TransactionState where
  toAddress : ℤ
  fromAddress : ℤ
  path : Bytes
  zeroNamespaceAnswer : Bool
  deriving DecidableEq, Repr

/-- SOURCE: rpc/bus.rs:45-66 -/
def TransactionState.tryAcceptResponse (t : TransactionState) (packet : Packet) : Bool :=
  if packet.toAddress ≠ t.fromAddress ∨ packet.fromAddress ≠ t.toAddress then false
  else
    let diff := if t.zeroNamespaceAnswer then 1 else 0
    if packet.payload.length < t.path.length + diff then false
    else if t.zeroNamespaceAnswer = true ∧ packet.payload.getD 0 0 ≠ 0 then false
    else decide ((packet.payload.drop diff).take t.path.length = t.path)

/-- SOURCE: rpc/bus.rs:123-131 -/
structure UartBus where
  fromAddress : ℤ
  pendingRequests : List (ℕ × TransactionState)
  nextId : ℕ
  deriving DecidableEq, Repr

namespace UartBus

/-- The bus after a received packet, and the transaction the payload is given to; with none the
packet is unrelated.
SOURCE: rpc/bus.rs:261-269 -/
def processPacket (bus : UartBus) (packet : Packet) : UartBus × Option ℕ :=
  match bus.pendingRequests.find? fun t => t.2.tryAcceptResponse packet with
  | some t =>
    ({ bus with
        pendingRequests := bus.pendingRequests.eraseP fun t => t.2.tryAcceptResponse packet },
      some t.1)
  | none => (bus, none)

/-- SOURCE: rpc/bus.rs:272-278 -/
def revokePendingRequest (bus : UartBus) (id : ℕ) : UartBus :=
  { bus with pendingRequests := bus.pendingRequests.filter fun t => decide (t.1 ≠ id) }

/-- SOURCE: rpc/bus.rs:280-304 -/
def register (bus : UartBus) (fromAddress toAddress : ℤ) (path : Bytes)
    (zeroNamespaceAnswer : Bool) : UartBus × ℕ :=
  ({ bus with
      pendingRequests := bus.pendingRequests ++
        [(bus.nextId, ⟨toAddress, fromAddress, path, zeroNamespaceAnswer⟩)]
      nextId := bus.nextId + 1 }, bus.nextId)

/-- The packet that is sent and the number of the transaction.
SOURCE: rpc/bus.rs:308-326 -/
def newTransaction (bus : UartBus) (toAddress : ℤ) (path payload : Bytes)
    (zeroNamespaceAnswer : Bool) : UartBus × ℕ × Packet :=
  let packet : Packet := ⟨toAddress, bus.fromAddress, payload⟩
  let (bus, id) := bus.register bus.fromAddress toAddress path zeroNamespaceAnswer
  (bus, id, packet)

end UartBus

/-! ## Calls -/

/-- SOURCE: rpc/device.rs:23-30 -/
inductive RpcError where
  | transaction (text : String)
  | posix (errno : UInt8)
  | other (text : String)
  deriving DecidableEq, Repr

/-- SOURCE: rpc/device.rs:50-57 -/
inductive UbRet where
  | noReturn
  | void
  | value (ty : RpcType)

/-- SOURCE: rpc/device.rs:59-69 -/
structure UbFunction where
  index : UInt8
  ret : UbRet
  posix : Bool
  retransmittable : Bool

/-- What is asked for: a transaction with the payload, for an answer that starts with the
path. -/
structure Request where
  path : Bytes
  payload : Bytes
  /-- An answer is waited for. -/
  awaited : Bool
  deriving DecidableEq, Repr

/-- What a transaction comes to. -/
inductive Outcome where
  /-- An accepted answer, with its whole payload. -/
  | response (payload : Bytes)
  /-- No answer in time. -/
  | timedOut
  /-- The packet could not be sent. -/
  | sendFailed (text : String)
  /-- The packet has been sent and no answer is waited for. -/
  | sent
  deriving DecidableEq, Repr

abbrev ClientProgram (α : Type) : Type := Program Request Outcome α

/-- The function ends unless `read_type` does not.
SOURCE: rpc/device.rs:93-114 -/
def extractOrThrowResult (function : UbFunction) (data : Bytes) :
    Option (Except RpcError (Option RpcValue)) :=
  let readValue (reader : PacketReader) : Option (Except RpcError (Option RpcValue)) :=
    match function.ret with
    | .noReturn | .void => some (.ok none)
    | .value ty =>
      match readType ty reader with
      | .value v _ => some (.ok (some v))
      | .error err =>
        some (.error (.other ("Unextractable returning value: " ++ err.text)))
      | .diverges => none
  if function.posix then
    match PacketReader.readUbyte ⟨data, 0⟩ with
    | none => some (.error (.other "Answer without error number"))
    | some (err, reader) => if err ≠ 0 then some (.error (.posix err)) else readValue reader
  else readValue ⟨data, 0⟩

/-- SOURCE: rpc/device.rs:133-140 -/
structure UartBusDevice where
  address : ℤ
  /-- The timeout in milliseconds. -/
  timeout : ℕ
  retryCount : ℕ
  deriving DecidableEq, Repr

namespace UartBusDevice

variable (dev : UartBusDevice)

/-- The text of a missing answer.
SOURCE: rpc/bus.rs:106-113 -/
def noResponse : String :=
  "Device (`" ++ toString dev.address ++ "`) not responded within " ++ toString dev.timeout ++
    " MILLISECONDS for the request"

/-- The attempts that are left.
SOURCE: rpc/device.rs:175-204 -/
def callLoop (function : UbFunction) (request : Request) :
    ℕ → Option String → ClientProgram (Except RpcError (Option RpcValue))
  | 0, lastError =>
    .done (.error (.transaction ("Device not responded after " ++ toString dev.retryCount ++
      " attempt." ++ (match lastError with | some e => " " ++ e | none => ""))))
  | attempts + 1, _ =>
    .ask request fun outcome =>
      match outcome with
      | .sendFailed text => .done (.error (.other ("Can't send request: " ++ text)))
      | .sent => .done (.ok none)
      | .response response =>
        match extractOrThrowResult function (response.drop (request.path.length + 1)) with
        | some result => .done result
        | none => .diverge
      | .timedOut =>
        if function.retransmittable then
          callLoop function request attempts (some dev.noResponse)
        else .done (.error (.transaction dev.noResponse))

/-- SOURCE: rpc/device.rs:161-205 -/
def call (nsPath : Bytes) (function : UbFunction) (params : List RpcValue) :
    ClientProgram (Except RpcError (Option RpcValue)) :=
  let path := nsPath ++ [function.index]
  match appendElements params with
  | .error e => .done (.error (.other e.text))
  | .ok bytes =>
    let awaited := match function.ret with
      | .noReturn => false
      | _ => true
    dev.callLoop function ⟨path, path ++ bytes, awaited⟩ dev.retryCount none

/-- SOURCE: rpc/device.rs:207-215 -/
def callValue (nsPath : Bytes) (function : UbFunction) (params : List RpcValue) :
    ClientProgram (Except RpcError RpcValue) :=
  (dev.call nsPath function params).bind fun result => .done <|
    match result with
    | .error e => .error e
    | .ok none => .error (.other "Function returned no value")
    | .ok (some v) => .ok v

/-- A call for its effect: the value is dropped. -/
def callUnit (nsPath : Bytes) (function : UbFunction) (params : List RpcValue) :
    ClientProgram (Except RpcError Unit) :=
  (dev.call nsPath function params).bind fun result => .done (result.map fun _ => ())

/-- SOURCE: rpc/device.rs:131 -/
def nsFlash : Bytes := [2, 4]

/-- SOURCE: rpc/device.rs:281-292 -/
def flashGetStage : ClientProgram (Except RpcError Int8) :=
  (dev.callValue nsFlash ⟨0, .value .s8, true, true⟩ []).bind fun result => .done <|
    match result with
    | .ok (.s8 value) => .ok value
    | .ok _ => .error (.other "Unexpected value")
    | .error e => .error e

/-- SOURCE: rpc/device.rs:294-297 -/
def flashStart : ClientProgram (Except RpcError Unit) :=
  dev.callUnit nsFlash ⟨1, .void, true, false⟩ []

/-- The text of the error leaves the value out.
SOURCE: rpc/device.rs:299-304 -/
def addressValue : Except RpcError RpcValue → Except RpcError UInt16
  | .ok (.u16 address) => .ok address
  | .ok _ => .error (.other "Unexpected value")
  | .error e => .error e

/-- SOURCE: rpc/device.rs:307-313 -/
def flashGetNextAddress : ClientProgram (Except RpcError UInt16) :=
  (dev.callValue nsFlash ⟨2, .value .u16, false, true⟩ []).bind fun result =>
    .done (addressValue result)

/-- SOURCE: rpc/device.rs:316-322 -/
def flashPushCode (startAddress : UInt16) (data : Bytes) :
    ClientProgram (Except RpcError UInt16) :=
  (dev.callValue nsFlash ⟨3, .value .u16, true, false⟩
    [.u16 startAddress, .bytes data]).bind fun result => .done (addressValue result)

/-- SOURCE: rpc/device.rs:324-327 -/
def flashCommit : ClientProgram (Except RpcError Unit) :=
  dev.callUnit nsFlash ⟨4, .void, true, false⟩ []

end UartBusDevice

end Uartbus.Model
