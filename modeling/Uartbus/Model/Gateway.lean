import Uartbus.Lib.Transducer
import Uartbus.Model.Host

/-!
# The gateways between a PC and the bus

What a gateway writes to the PC (`PcWriter`), the same in the Arduino gateway and in the Linux
gateway, and what each of them does with the bytes from the PC: the Arduino gateway calls
`queue_enqueue_content` for each packet, the Linux gateway waits with each packet until the bus has
sent it.
-/

set_option autoImplicit false

namespace Uartbus.Model

open Lib

/-! ## To the PC -/

/-- The callbacks of the link layer, with their flag `receive`.
SOURCE: uartbus_connector.cpp:162, linux_bus_gateway.c:54 -/
structure PcWriter where
  receive : Bool
  deriving DecidableEq, Repr

namespace PcWriter

/-- SOURCE: uartbus_connector.cpp:164-174, linux_bus_gateway.c:56-66 -/
def ubRecByte (w : PcWriter) (dataByte : UInt8) : PcWriter × Bytes :=
  if w.receive then
    (w, (if dataByte = packetEscape then [packetEscape] else []) ++ [dataByte])
  else (w, [])

/-- SOURCE: uartbus_connector.cpp:182-195, linux_bus_gateway.c:98-117 -/
def ubEvent (w : PcWriter) (event : UartbusEvent) : PcWriter × Bytes :=
  if event = .receiveStart then ({ w with receive := true }, [])
  else if event = .receiveEnd then ({ w with receive := false }, [packetEscape, ~~~packetEscape])
  else (w, [])

/-- The callback an observation of the link layer stands for, if it stands for one. -/
def observe (w : PcWriter) : Observation → PcWriter × Bytes
  | .event e => w.ubEvent e
  | .delivered b => w.ubRecByte b
  | _ => (w, [])

/-- The bytes written to the PC. -/
def written (obs : List Observation) : Bytes := (transduce observe ⟨false⟩ obs).2

end PcWriter

/-- The configuration of both gateways.
SOURCE: bus_gateway_commons.c:182-187, linux_bus_gateway.c:291-296 -/
def gatewayCfg : UInt8 := cfgFairwaitAfterSendLow ||| cfgReadWithInterrupt ||| cfgSkipCollisionData

/-! ## The Arduino gateway -/

/-- What the serial line to the PC has available, and the variables of the decoder; `decode` are
its first `ep` bytes.
SOURCE: uartbus_connector.cpp:223-225 -/
structure PcDecoder where
  serial : Bytes
  mayCut : Bool
  decode : Bytes
  deriving DecidableEq, Repr

namespace PcDecoder

/-- `queue_enqueue_content`: the packet it is given, with its size in a `uint8_t`.
SOURCE: bus_gateway_commons.c:113-125 -/
def enqueuedContent (decode : Bytes) : Bytes := decode.take (decode.length % 256)

/-- The body of the loop, with the packet `queue_enqueue_content` is called for, if it is.
SOURCE: uartbus_connector.cpp:232-266 -/
def decodeByte (maxPacketSize : ℕ) (s : Bool × Bytes) (b : UInt8) :
    (Bool × Bytes) × List Bytes :=
  let decode := if s.2.length ≥ maxPacketSize then [] else s.2
  if s.1 then
    if b = ~~~packetEscape then ((false, []), [enqueuedContent decode])
    else ((false, decode ++ [b]), [])
  else if b = packetEscape then ((true, decode), [])
  else ((false, decode ++ [b]), [])

/-- One call takes at most 19 of the bytes that are available.
SOURCE: uartbus_connector.cpp:227-268 -/
def manageDataFromPc (maxPacketSize : ℕ) (d : PcDecoder) : PcDecoder × List Bytes :=
  let r := transduce (decodeByte maxPacketSize) (d.mayCut, d.decode) (d.serial.take 19)
  ({ serial := d.serial.drop 19, mayCut := r.1.1, decode := r.1.2 }, r.2)

def initial : PcDecoder := { serial := [], mayCut := false, decode := [] }

end PcDecoder

/-- The decoder with the packets it has called `queue_enqueue_content` for (the pool behind it is
`EntryQueue`) and the bytes that have come so far. -/
structure ArduinoGateway where
  decoder : PcDecoder
  arrived : Bytes
  enqueued : List Bytes
  deriving DecidableEq, Repr

inductive ArduinoAction where
  /-- Bytes arrive at the serial line. -/
  | arrive (bytes : Bytes)
  /-- `manage_data_from_pc` is called. -/
  | manage
  deriving DecidableEq, Repr

def arduinoStep (maxPacketSize : ℕ) (g : ArduinoGateway) : ArduinoAction → Option ArduinoGateway
  | .arrive bytes =>
    some { g with
      decoder := { g.decoder with serial := g.decoder.serial ++ bytes }
      arrived := g.arrived ++ bytes }
  | .manage =>
    let r := g.decoder.manageDataFromPc maxPacketSize
    some { g with decoder := r.1, enqueued := g.enqueued ++ r.2 }

def ArduinoGateway.initial : ArduinoGateway :=
  { decoder := PcDecoder.initial, arrived := [], enqueued := [] }

/-! ## The Linux gateway -/

/-- The Linux gateway.  `input` is what the PC will have sent; `decode` are its first `ep`
bytes, and `sendData` says whether `send_data` points at it.  `dispatching` holds in the loop
that waits for the bus.  `handed` records what `send_on_idle` handed over.
SOURCE: linux_bus_gateway.c:126-127, 170-173 -/
structure LinuxGateway where
  node : Node
  input : Bytes
  mayCut : Bool
  decode : Bytes
  sendData : Bool
  sendSize : UInt8
  dispatching : Bool
  handed : List Bytes
  deriving DecidableEq, Repr

namespace LinuxGateway

/-- One byte from the PC; the end of a packet enters the waiting loop.
SOURCE: linux_bus_gateway.c:186-255 -/
def readByte (g : LinuxGateway) (b : UInt8) : LinuxGateway :=
  if g.mayCut then
    if b = ~~~packetEscape then
      { g with
        sendData := true
        sendSize := UInt8.ofNat g.decode.length
        dispatching := true }
    else { g with decode := g.decode ++ [b], mayCut := false }
  else if b = packetEscape then { g with mayCut := true }
  else { g with decode := g.decode ++ [b] }

/-- What `send_on_idle` does when it is called.
SOURCE: linux_bus_gateway.c:129-140 -/
def sendOnIdle (g : LinuxGateway) : Node.SendOnIdle :=
  if g.sendSize ≠ 0 then .packet (g.decode.take g.sendSize.toNat) else .nothing

/-- The waiting loop: its condition, and one round of it.
SOURCE: linux_bus_gateway.c:206-222, 233 -/
def waitRound (g : LinuxGateway) (rand : UInt8) : LinuxGateway :=
  if g.sendData = false ∧ g.node.bus.toSendSize = 0 then
    { g with dispatching := false, decode := [], mayCut := false }
  else if g.node.callsSendOnIdle rand ∧ g.sendSize ≠ 0 then
    { g with
      node := g.node.manage [] rand g.sendOnIdle
      sendData := false
      sendSize := 0
      handed := g.handed ++ [g.decode.take g.sendSize.toNat] }
  else { g with node := g.node.manage [] rand g.sendOnIdle }

end LinuxGateway

/-- The threads of the gateway: the one that reads from the PC, the one that reads from the bus,
and the main loop with `ub_manage_connection(&bus, NULL)`.  While one of them is in
`ub_send_packet`, the main loop gets as far as `ub_out_update_state`. -/
inductive LinuxAction where
  | read
  | wait (rand : UInt8)
  | bus (val : UInt8)
  | main (rand : UInt8)
  | tick (us : ℕ)
  /-- A step of the running `ub_send_packet`; `ub_do_send_byte` returns 0. -/
  | sender (rand : UInt8)
  deriving DecidableEq, Repr

def LinuxGateway.linkStep (g : LinuxGateway) (a : LinkAction) : Option LinuxGateway :=
  (step g.node a).map fun node => { g with node := node }

def linuxStep (g : LinuxGateway) : LinuxAction → Option LinuxGateway
  | .read =>
    match g.dispatching, g.input with
    | false, b :: rest => some (({ g with input := rest } : LinuxGateway).readByte b)
    | _, _ => none
  | .wait rand =>
    if g.dispatching = true ∧ g.node.sender = none then some (g.waitRound rand) else none
  | .bus val => g.linkStep (.recByte val.toUInt16)
  | .main rand =>
    if g.node.sender = none then g.linkStep (.manage [] rand .null)
    else g.linkStep (.update rand)
  | .tick us => g.linkStep (.tick us)
  | .sender rand => g.linkStep (.sender 0 rand)

/-- The gateway after `init_bus`, with the bytes the PC will send. -/
def LinuxGateway.init (byteTimeUs : ℕ) (wi : ℤ) (time : ℕ) (input : Bytes) : LinuxGateway :=
  { node := Node.init byteTimeUs 2 gatewayCfg wi time
    input := input
    mayCut := false
    decode := []
    sendData := false
    sendSize := 0
    dispatching := false
    handed := [] }

end Uartbus.Model
