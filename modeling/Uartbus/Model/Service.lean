import Uartbus.Model.RpcBus

/-!
# Serving functions on the bus

A service is a namespace of functions that are selected by an index byte (rpc/service.rs).  The
functions themselves are a parameter, `UbService`: the namespaces are the values of a type `σ`,
and a function may change the state `μ` of the process it runs in.

`LosslessBus` puts a client and a service on a bus that loses nothing.
-/

set_option autoImplicit false

namespace Uartbus.Model

/-- SOURCE: rpc/service.rs:12-20 -/
inductive ServiceReply (σ : Type) where
  | noReturn
  | void
  | value (v : RpcValue)
  /-- `Namespace` -/
  | subNamespace (next : σ)

/-- SOURCE: rpc/service.rs:22-26 -/
inductive ServiceError where
  | posix (errno : UInt8)
  | internal (message : String)
  deriving DecidableEq, Repr

/-- SOURCE: rpc/service.rs:28-32 -/
structure ServiceCall (σ : Type) where
  posix : Bool
  result : Except ServiceError (ServiceReply σ)

/-- SOURCE: rpc/service.rs:50-55 -/
structure UbService (σ μ : Type) where
  call : σ → UInt8 → PacketReader → μ → Option (ServiceCall σ × PacketReader) × μ

/-- SOURCE: rpc/service.rs:59-66 -/
structure UartbusServiceBridge (σ : Type) where
  service : σ
  /-- Only the packets sent to this address are served; none: all. -/
  targetAddress : Option ℤ
  path : Bytes

/-- What comes of a request at a service. -/
inductive Served where
  | ignored
  /-- A line is logged. -/
  | warned (what : String)
  | answered (packet : Bytes)
  deriving DecidableEq, Repr

namespace UartbusServiceBridge

variable {σ μ : Type}

/-- What is assembled for an answer.
SOURCE: rpc/service.rs:113-120 -/
def buildResponse (request : ParsedUartBusPacket) (pathEnd : ℕ) (values : List RpcValue) :
    Except PackError Bytes := do
  let buffer ← PacketAssembler.writeAddressing [] request.toAddress request.fromAddress
  let bytes ← appendElements values
  pure (buffer ++ 0 :: (request.payload.take pathEnd ++ bytes))

/-- SOURCE: rpc/service.rs:112-133 -/
def responsePacket (request : ParsedUartBusPacket) (pathEnd : ℕ) (values : List RpcValue) :
    Served :=
  match buildResponse request pathEnd values with
  | .ok buffer => .answered (PacketAssembler.appendCrc8 buffer)
  | .error err => .warned ("Can't build response: " ++ err.text)

/-- The loop over the namespaces; each round takes at least the index byte.
SOURCE: rpc/service.rs:160-214 -/
def serve (services : UbService σ μ) (request : ParsedUartBusPacket) (service : σ) (ep : ℕ)
    (memory : μ) : Served × μ :=
  if _ : ep < request.payload.length then
    let index := request.payload[ep]
    let pathEnd := ep + 1
    match services.call service index ⟨request.payload.drop pathEnd, 0⟩ memory with
    | (none, memory) => (.ignored, memory)
    | (some (call, reader), memory) =>
      match call.result with
      | .ok .noReturn => (.ignored, memory)
      | .ok .void =>
        (responsePacket request pathEnd (if call.posix then [.u8 0] else []), memory)
      | .ok (.value value) =>
        (responsePacket request pathEnd (if call.posix then [.u8 0, value] else [value]), memory)
      | .ok (.subNamespace next) => serve services request next (pathEnd + reader.ep) memory
      | .error (.posix errno) =>
        if call.posix then (responsePacket request pathEnd [.u8 errno], memory)
        else
          (.warned ("errno " ++ toString errno ++ " from a function that can't report it"),
            memory)
      | .error (.internal message) => (.warned message, memory)
  else (.warned "request ends before the function index", memory)
termination_by request.payload.length - ep

/-- SOURCE: rpc/service.rs:136-215 -/
def feedPacket (services : UbService σ μ) (bridge : UartbusServiceBridge σ) (raw : Bytes)
    (memory : μ) : Served × μ :=
  match ParsedUartBusPacket.new raw with
  | .error _ => (.ignored, memory)
  | .ok request =>
    if bridge.targetAddress.any (fun addr => decide (addr ≠ request.toAddress)) then
      (.ignored, memory)
    else if bridge.path.isPrefixOf request.payload then
      serve services request bridge.service bridge.path.length memory
    else (.ignored, memory)

end UartbusServiceBridge

/-! ## A client and a service -/

/-- A client's bus and the state of the process that serves. -/
structure LosslessBus (μ : Type) where
  client : UartBus
  memory : μ

/-- One transaction on a bus that loses nothing: the request is fed to the service, its answer to
the client, and both in time.  The transaction is dropped at the end of the attempt.
SOURCE: rpc/bus.rs:308-326, rpc/device.rs:176-197 -/
def LosslessBus.respond {σ μ : Type} (services : UbService σ μ) (bridge : UartbusServiceBridge σ)
    (dev : UartBusDevice) (r : Request) (s : LosslessBus μ) : Outcome × LosslessBus μ :=
  match toPacket dev.address s.client.fromAddress [.bytes r.payload] with
  | .error err => (.sendFailed err.text, s)
  | .ok packet =>
    let (client, id) := s.client.register s.client.fromAddress dev.address r.path true
    let (served, memory) :=
      match getValidPacket packet with
      | some raw => bridge.feedPacket services raw s.memory
      | none => (.ignored, s.memory)
    let (client, response) :=
      match served with
      | .answered answer =>
        match client.receive answer with
        | (client, .accepted taker payload) =>
          (client, if taker = id then some payload else none)
        | (client, _) => (client, none)
      | _ => (client, none)
    let outcome : Outcome :=
      if r.awaited then
        match response with
        | some payload => .response payload
        | none => .timedOut
      else .sent
    (outcome, { client := client.revokePendingRequest id, memory := memory })

end Uartbus.Model
