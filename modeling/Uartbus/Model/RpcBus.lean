import Uartbus.Model.RpcClient

/-!
# Received packets at the client

`ParsedUartBusPacket::new` (packet.rs) and what `UartBus::process_packet` does with a received
packet up to the listeners (rpc/bus.rs).
-/

set_option autoImplicit false

namespace Uartbus.Model

/-- The checksum fields are not used for received packets.
SOURCE: packet.rs:243-251 -/
structure ParsedUartBusPacket where
  rawPacket : Bytes
  fromAddress : ℤ
  toAddress : ℤ
  payload : Bytes
  deriving DecidableEq, Repr

namespace ParsedUartBusPacket

/-- `try_into::<i32>().unwrap_or(default)` -/
def toI32 (value default : ℤ) : ℤ := if -2 ^ 31 ≤ value ∧ value < 2 ^ 31 then value else default

/-- SOURCE: packet.rs:254-270 -/
def new (data : Bytes) : Except UnpackError ParsedUartBusPacket := do
  let (toAddress, used) ← unpackValue true data 0
  let ep := used
  let (fromAddress, used) ← unpackValue true data ep
  let ep := ep + used
  pure
    { rawPacket := data
      fromAddress := toI32 fromAddress (2 ^ 31 - 1)
      toAddress := toI32 toAddress (-2 ^ 31)
      payload := data.drop ep }

/-- The part that a waiting transaction looks at. -/
def packet (p : ParsedUartBusPacket) : Packet := ⟨p.toAddress, p.fromAddress, p.payload⟩

end ParsedUartBusPacket

/-- What becomes of a received packet. -/
inductive PacketFate where
  /-- The checksum is wrong; the listeners of invalid packets get the whole packet. -/
  | invalid (packet : Bytes)
  /-- An address cannot be read; a line is logged. -/
  | unparsable (err : UnpackError)
  /-- The transaction has its response. -/
  | accepted (id : ℕ) (payload : Bytes)
  /-- The listeners of unrelated packets get the packet without its checksum. -/
  | unrelated (rawPacket : Bytes)
  deriving DecidableEq, Repr

/-- SOURCE: rpc/bus.rs:243-270 -/
def UartBus.receive (bus : UartBus) (raw : Bytes) : UartBus × PacketFate :=
  match getValidPacket raw with
  | none => (bus, .invalid raw)
  | some data =>
    match ParsedUartBusPacket.new data with
    | .error err => (bus, .unparsable err)
    | .ok parsed =>
      match bus.processPacket parsed.packet with
      | (bus, some id) => (bus, .accepted id parsed.payload)
      | (bus, none) => (bus, .unrelated parsed.rawPacket)

end Uartbus.Model
