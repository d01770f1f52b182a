import Uartbus.Model.Addr16
import Uartbus.Model.Bootloader
import Uartbus.Model.Crc8
import Uartbus.Model.LinkSystem

/-!
# Packets of the bootloader host

The receive buffer and the send buffer of the host (ub_bootloader.c), with the two ways it is
connected: through the link layer (ub_uartbus.c) and directly to a PC (direct.c).

`received_data` is the list of its first `received_ep` bytes.  `send_data` has a fixed size and
keeps its old contents; `to_send` of the bus points at it from the first hand-over on, so a
store to `send_data` changes what is transmitted next (`Host.shareSendData`).
-/

set_option autoImplicit false

namespace Uartbus.Model

open Lib

/-- `PACKET_ESCAPE`.
SOURCE: direct.c:4-6, uartbus_connector.cpp:115-117, linux_bus_gateway.c:46-48 -/
def packetEscape : UInt8 := 0xff

/-- What a host is compiled with: `MAX_PACKET_SIZE` and `BUS_ADDRESS`.  A build whose
`MAX_PACKET_SIZE` does not fit a `uint8_t` is left out, since `get_max_packet_size` returns it as
one.
SOURCE: ub_bootloader.c:579-582 -/
structure HostBuild where
  maxPacketSize : ℕ
  busAddress : Int16
  max_lt : maxPacketSize < 256
  deriving DecidableEq, Repr

/-! ## Receiving -/

/-- SOURCE: ub_bootloader.c:420-421, 502, direct.c:66 -/
structure HostReceive where
  received : Bool
  receivedData : Bytes
  mayCut : Bool
  deriving DecidableEq, Repr

/-- What `try_dispatch_received_packet` finds in the buffer. -/
inductive Decoded where
  | badChecksum
  | short
  | badAddress
  | request (req : RpcRequest)
  deriving DecidableEq, Repr

/-- The copy of the payload, with the size in a `uint8_t`.
SOURCE: ub_bootloader.c:538-545 -/
def copyPayload (toAddress fromAddress : Int16) (data : Bytes) (ep : ℕ) : RpcRequest :=
  { toAddress := toAddress.toInt
    fromAddress := fromAddress.toInt
    payload := (data.drop ep).take ((data.length - ep - 1) % 256)
    procPtr := 0
    size_lt :=
      Nat.lt_of_le_of_lt (List.length_take_le _ _) (Nat.mod_lt _ (by decide)) }

/-- The checks and the decoding.  With an empty buffer the checksum is compared with memory
outside of it, and both outcomes are treated alike below.
SOURCE: ub_bootloader.c:513-545 -/
def decodeReceived (data : Bytes) : Decoded :=
  let last := data.length - 1
  if ubCrc8 data (UInt8.ofNat last) ≠ data.getD last 0 then .badChecksum
  else if data.length ≤ 3 then .short
  else
    let toField := ubUnpack16Value 0 (data.take last)
    if toField.1 < 1 then .badAddress
    else
      let fromField := ubUnpack16Value 0 ((data.take last).drop toField.1.toNat)
      if fromField.1 < 1 then .badAddress
      else .request
        (copyPayload toField.2 fromField.2 data (toField.1.toNat + fromField.1.toNat))

namespace HostReceive

/-- The buffer afterwards, and the request `dispatch` is called with, if it is.  An address that
cannot be read ends the function before `received_ep` is set to 0.
SOURCE: ub_bootloader.c:504-567 -/
def tryDispatchReceivedPacket (build : HostBuild) (s : HostReceive) :
    HostReceive × Option RpcRequest :=
  if s.received then
    match decodeReceived s.receivedData with
    | .badAddress => ({ s with received := false }, none)
    | .badChecksum | .short => ({ s with received := false, receivedData := [] }, none)
    | .request req =>
      ({ s with received := false, receivedData := [] },
        if req.toAddress < 1 ∨ build.busAddress.toInt = req.toAddress then some req else none)
  else (s, none)

/-- The receive function of the direct host.
SOURCE: direct.c:78-122 -/
def ubOutRecByte (build : HostBuild) (s : HostReceive) (data : UInt16) : HostReceive :=
  if data.toNat > 255 then s
  else if s.received then s
  else
    let s :=
      if s.receivedData.length ≥ build.maxPacketSize then { s with receivedData := [] } else s
    let b := data.toUInt8
    if s.mayCut then
      if b = ~~~packetEscape then { s with received := true, mayCut := false }
      else { s with receivedData := s.receivedData ++ [b], mayCut := false }
    else if b = packetEscape then { s with mayCut := true }
    else { s with receivedData := s.receivedData ++ [b] }

/-- A byte, and `ubh_manage_bus` before the next one.  The output is the packet that
`try_dispatch_received_packet` finds, if it finds one. -/
def serveByte (build : HostBuild) (s : HostReceive) (b : UInt8) :
    HostReceive × List Bytes :=
  let s := s.ubOutRecByte build b.toUInt16
  ((s.tryDispatchReceivedPacket build).1, if s.received then [s.receivedData] else [])

/-- The buffer at the start. -/
def initial : HostReceive := { received := false, receivedData := [], mayCut := false }

end HostReceive

/-! ## Sending -/

/-- SOURCE: ub_bootloader.c:423-424 -/
structure HostSend where
  sendSize : ℕ
  sendData : Bytes
  deriving DecidableEq, Repr

namespace HostSend

/-- The loop that copies the data behind the header.
SOURCE: ub_bootloader.c:467-470 -/
def copyData (sendData : Bytes) (ep : ℕ) (data : Bytes) : Bytes :=
  (List.range data.length).foldl (fun buffer i => buffer.set (ep + i) (data.getD i 0)) sendData

/-- The call is refused before anything is stored.
SOURCE: ub_bootloader.c:442-445 -/
def Refuses (build : HostBuild) (s : HostSend) (data : Bytes) : Prop :=
  s.sendSize ≠ 0 ∨ data.length + 4 ≥ build.maxPacketSize

instance (build : HostBuild) (s : HostSend) (data : Bytes) :
    Decidable (s.Refuses build data) := inferInstanceAs (Decidable (_ ∨ _))

/-- The buffer afterwards and the return value.
SOURCE: ub_bootloader.c:439-479 -/
def sendPacketPriv (build : HostBuild) (s : HostSend) (toAddress : Int16) (ns : UInt8)
    (data : Bytes) : HostSend × Bool :=
  if s.Refuses build data then (s, false)
  else
    let toField := ubPack16Value toAddress s.sendData
    if toField.1 < 1 then ({ s with sendData := toField.2 }, false)
    else
      let ep := toField.1.toNat
      let fromField := ubPack16Value build.busAddress (toField.2.drop ep)
      let sendData := toField.2.take ep ++ fromField.2
      if fromField.1 < 1 then ({ s with sendData := sendData }, false)
      else
        let ep := ep + fromField.1.toNat
        let sendData := copyData (sendData.set ep ns) (ep + 1) data
        let ep := ep + 1
        let sendData :=
          sendData.set (ep + data.length) (ubCrc8 sendData (UInt8.ofNat (ep + data.length)))
        ({ sendSize := (data.length + ep + 1) % 256, sendData := sendData }, true)

/-- SOURCE: ub_uartbus.c:106-116 -/
def sendOnIdle (s : HostSend) : Node.SendOnIdle × HostSend :=
  if s.sendSize ≠ 0 then
    (.packet (s.sendData.take s.sendSize), { s with sendSize := 0 })
  else (.nothing, s)

end HostSend

/-! ## The host on the bus -/

/-- A transmission attempt: what was handed over, what has been passed to `do_send_byte`, and
whether `ub_send_packet` has returned 0. -/
structure Attempt where
  handed : Bytes
  passed : Bytes
  complete : Bool
  deriving DecidableEq, Repr

/-- The host with its link layer.  `handed` and `attempts` record what has happened. -/
structure Host where
  node : Node
  send : HostSend
  /-- What `send_on_idle` handed over last. -/
  handed : Bytes
  attempts : List Attempt
  deriving DecidableEq, Repr

namespace Host

/-- One more observation of the link layer. -/
def recordOne (handed : Bytes) (attempts : List Attempt) : Observation → List Attempt
  | .accepted _ => attempts ++ [{ handed := handed, passed := [], complete := false }]
  | .passed b =>
    match attempts.getLast? with
    | some a => attempts.dropLast ++ [{ a with passed := a.passed ++ [b] }]
    | none => attempts
  | .returned r =>
    match attempts.getLast? with
    | some a => attempts.dropLast ++ [{ a with complete := a.complete || decide (r = 0) }]
    | none => attempts
  | _ => attempts

/-- The link layer goes on to `node`. -/
def follow (h : Host) (node : Node) : Host :=
  { h with
    node := node
    attempts := (node.obs.drop h.node.obs.length).foldl (recordOne h.handed) h.attempts }

/-- `to_send`, and the packet of a running `ub_send_packet`, are `send_data`. -/
def shareSendData (h : Host) : Host :=
  { h with
    node := { h.node with
      bus := { h.node.bus with toSend := h.send.sendData }
      sender := h.node.sender.map fun s => (h.send.sendData.take s.1.length, s.2) } }

/-- `send_packet_priv`, from the application or as a reply. -/
def callSendPacketPriv (build : HostBuild) (h : Host) (toAddress : Int16) (ns : UInt8)
    (data : Bytes) : Host :=
  ({ h with send := (h.send.sendPacketPriv build toAddress ns data).1 } : Host).shareSendData

/-- The first call of `ubh_manage_bus`; the packets that the second one dispatches are answered
through `send_packet_priv`.
SOURCE: ub_uartbus.c:118-122 -/
def manageBus (h : Host) (rand : UInt8) : Host :=
  let hook := h.send.sendOnIdle
  if h.node.callsSendOnIdle rand ∧ h.send.sendSize ≠ 0 then
    ({ h with send := hook.2, handed := h.send.sendData.take h.send.sendSize } : Host).follow
      (h.node.manage [] rand hook.1)
  else h.follow (h.node.manage [] rand hook.1)

end Host

/-- What can happen next; `stat` is what `do_send_byte` returns. -/
inductive HostAction where
  | sendPacketPriv (toAddress : Int16) (ns : UInt8) (data : Bytes)
  | manageBus (rand : UInt8)
  | recByte (b : UInt8)
  | predict
  | tick (us : ℕ)
  | sender (stat rand : UInt8)
  deriving DecidableEq, Repr

/-- The link layer makes a step of its own. -/
def Host.linkStep (h : Host) (a : LinkAction) : Option Host := (stepAtomic h.node a).map h.follow

def hostStep (build : HostBuild) (h : Host) : HostAction → Option Host
  | .sendPacketPriv toAddress ns data =>
    if h.node.between ∧ data.length < 256 then
      some (h.callSendPacketPriv build toAddress ns data)
    else none
  | .manageBus rand => if h.node.sender = none then some (h.manageBus rand) else none
  | .recByte b => h.linkStep (.recByte b.toUInt16)
  | .predict => h.linkStep .predict
  | .tick us => h.linkStep (.tick us)
  | .sender stat rand => h.linkStep (.sender stat rand)

/-- The configuration of the host.
SOURCE: ub_uartbus.c:97-102 -/
def hostCfg : UInt8 := cfgFairwaitAfterSendLow ||| cfgReadWithInterrupt ||| cfgSkipCollisionData

/-- The host after `init_bus`. -/
def Host.init (build : HostBuild) (byteTimeUs : ℕ) (wi : ℤ) (time : ℕ) : Host :=
  { node := Node.init byteTimeUs 2 hostCfg wi time
    send := { sendSize := 0, sendData := List.replicate build.maxPacketSize 0 }
    handed := []
    attempts := [] }

end Uartbus.Model
