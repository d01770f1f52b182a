import Uartbus.Lib.Peek
import Uartbus.Model.Reception

/-!
# A packet at a device, read by read

`try_dispatch_received_packet` and the functions of the namespaces 1 and 2 (ub_bootloader.c), with
every read of `received_data` and of `req->payload` as a step of its own.  Both are arrays without
a size of their own: address 0 is the start of the array, and what stands before and behind it is
whatever the memory holds there.

The callbacks of the transports do not come between the reads; `app_dispatch` is the application's,
and a request for it is answered by nothing here.
-/

set_option autoImplicit false

namespace Uartbus.Model

open Lib

/-- SOURCE: posix_errno.h:25 -/
def EINVAL : UInt8 := 22

/-- A computation that reads from an array of bytes. -/
abbrev Look : Type → Type := Peek ℤ UInt8

/-! ## The received packet -/

/-- The loop reads the bytes one after another.
SOURCE: ub.c:110-138, direct.c:17-45 -/
def crc8At (length : UInt8) : Look UInt8 := do
  let bytes ← Peek.readBlock 0 length.toNat
  pure (bytes.1.foldl crc8Round 0)

/-- The loop that counts the bytes: `arr[i]` stands at the address, and there are that many
rounds left.
SOURCE: addr16.c:53-72 -/
def scanReqAt : ℕ → ℤ → ℤ → Look (Except ℤ ℤ)
  | 0, _, req => pure (.ok req)
  | left + 1, i, req => do
    let byte ← Peek.read i
    if byte &&& 0x80 ≠ 0 then
      if left = 0 then pure (.error (-ELNRNG))
      else if req + 1 > 2 then pure (.error (-EMSGSIZE))
      else scanReqAt left (i + 1) (req + 1)
    else pure (.ok req)

/-- SOURCE: addr16.c:74-91 -/
def addr16ValueAt (arr req : ℤ) : Look (Except ℤ ℕ) :=
  if req = 3 then do
    let second ← Peek.read (arr + 1)
    if second.toNat &&& 0b0011100 ≠ 0 then pure (.error (-EOVERFLOW))
    else do
      let first ← Peek.read arr
      let second ← Peek.read (arr + 1)
      let third ← Peek.read (arr + 2)
      pure (.ok (((0b00111111 &&& first.toNat) <<< 14) |||
        ((0b01111111 &&& second.toNat) <<< 7) ||| third.toNat))
  else if req = 2 then do
    let first ← Peek.read arr
    let second ← Peek.read (arr + 1)
    pure (.ok (((0b00111111 &&& first.toNat) <<< 7) ||| second.toNat))
  else do
    let first ← Peek.read arr
    pure (.ok (0b00111111 &&& first.toNat))

/-- The return value and the content of `*dst` afterwards.
SOURCE: addr16.c:49-107 -/
def ubUnpack16ValueAt (arr : ℤ) (size : ℕ) : Look (ℤ × Int16) := do
  match ← scanReqAt size arr 1 with
  | .error e => pure (e, 0)
  | .ok req =>
    match ← addr16ValueAt arr req with
    | .error e => pure (e, 0)
    | .ok value => do
      let value : Int16 := Int16.ofInt value
      let first ← Peek.read arr
      pure (req, if first &&& 0x40 ≠ 0 then -(value + 1) else value)

/-- The checks, the addresses and the copy of the payload.
SOURCE: ub_bootloader.c:513-545 -/
def readReceived (receivedEp : ℕ) : Look Decoded := do
  let crc ← crc8At (UInt8.ofInt ((receivedEp : ℤ) - 1))
  let last ← Peek.read ((receivedEp : ℤ) - 1)
  if crc ≠ last then pure .badChecksum
  else if receivedEp ≤ 3 then pure .short
  else do
    let toField ← ubUnpack16ValueAt 0 (receivedEp - 1)
    if toField.1 < 1 then pure .badAddress
    else do
      let fromField ← ubUnpack16ValueAt toField.1 (receivedEp - 1 - toField.1.toNat)
      if fromField.1 < 1 then pure .badAddress
      else do
        let ep := toField.1.toNat + fromField.1.toNat
        let payload ← Peek.readBlock ep ((receivedEp - ep - 1) % 256)
        pure (.request
          { toAddress := toField.2.toInt
            fromAddress := fromField.2.toInt
            payload := payload.1
            procPtr := 0
            size_lt :=
              Nat.lt_of_le_of_lt (Nat.le_of_eq payload.2) (Nat.mod_lt _ (Nat.succ_pos 255)) })

/-! ## The functions -/

/-- What the functions of a device call.  The fields are what the calls return. -/
structure DeviceImpl where
  /-- `ubh_impl_set_user_led`. -/
  setUserLed : UInt8 → UInt8
  micros : UInt32
  rando : UInt8
  /-- `ubh_impl_has_app`. -/
  hasApp : Bool
  /-- The bytes that are in the buffer after `ubh_impl_read_code`. -/
  readCode : UInt16 → (size : ℕ) → Vector UInt8 size

/-- SOURCE: ub_bootloader.c:8-9, 223-227 -/
structure DeviceState (p : Platform) where
  flash : Flash p
  resetFlag : UInt8
  deriving DecidableEq, Repr

/-- A request without its payload, which is read from the memory.
SOURCE: rpc.h:24-33 -/
structure RequestHead where
  toAddress : ℤ
  fromAddress : ℤ
  size : ℕ
  procPtr : ℕ
  deriving DecidableEq, Repr

def RpcRequest.head (req : RpcRequest) : RequestHead :=
  { toAddress := req.toAddress
    fromAddress := req.fromAddress
    size := req.payload.length
    procPtr := req.procPtr }

/-- How a function ends. -/
inductive Ending (σ : Type) where
  | returned (s : σ) (answers : List Packet)
  /-- It waits for the watchdog. -/
  | restarts (s : σ)
  /-- It jumps to the address 0. -/
  | jumps (s : σ)
  deriving DecidableEq, Repr

def Ending.map {σ τ : Type} (f : σ → τ) : Ending σ → Ending τ
  | returned s answers => returned (f s) answers
  | restarts s => restarts (f s)
  | jumps s => jumps (f s)

namespace Device

abbrev Handler (σ : Type) : Type := RequestHead → σ → Look (Ending σ)

variable {σ : Type} {p : Platform}

/-- The path of the request is copied before the bytes of the response.
SOURCE: ub_bootloader.c:39-59 -/
def rpcResponse (p : Platform) (req : RequestHead) (part : Look Bytes) : Look Packet := do
  let path ← Peek.readBlock 0 req.procPtr
  let bytes ← part
  pure { toAddress := req.fromAddress
         fromAddress := p.busAddress
         payload := 0 :: (path.1 ++ bytes) }

/-- `il_reply` as the last call of a function.
SOURCE: rpc.c:60-79 -/
def ilReply (p : Platform) (req : RequestHead) (bytes : Bytes) (s : σ) : Look (Ending σ) := do
  let answer ← rpcResponse p req (pure bytes)
  pure (.returned s [answer])

/-- `il_reply_arr` with a part of the payload.
SOURCE: rpc.c:48-58 -/
def ilReplyArr (p : Platform) (req : RequestHead) (data size : ℕ) (s : σ) : Look (Ending σ) := do
  let answer ← rpcResponse p req do
    let bytes ← Peek.readBlock data size
    pure bytes.1
  pure (.returned s [answer])

/-- SOURCE: rpc.c:108-129 -/
def dispatchFunctionChain (p : Platform) (chain : List (Option (Handler σ))) : Handler σ :=
  fun req s =>
    if req.procPtr < req.size then do
      let index ← Peek.read req.procPtr
      match chain[index.toNat]? with
      | some (some func) => func { req with procPtr := req.procPtr + 1 } s
      | _ => ilReply p req [ENOSYS] s
    else ilReply p req [EBADF] s

/-- SOURCE: rpc.c:131-150 -/
def dispatchDescriptorChain (p : Platform) (chain : List (Option (List (Option (Handler σ))))) :
    Handler σ := fun req s =>
  if req.procPtr < req.size then do
    let index ← Peek.read req.procPtr
    match chain[index.toNat]? with
    | some (some functions) =>
      dispatchFunctionChain p functions { req with procPtr := req.procPtr + 1 } s
    | _ => ilReply p req [ENOSYS] s
  else ilReply p req [EBADF] s

/-! ### Namespace 1 -/

/-- SOURCE: ub_bootloader.c:63-67 -/
def rpcBasicPing : Handler (DeviceState p) := fun req s => ilReply p req [] s

/-- SOURCE: ub_bootloader.c:69-73 -/
def rpcBasicReplay : Handler (DeviceState p) := fun req s =>
  ilReplyArr p req req.procPtr (req.size - req.procPtr) s

/-- SOURCE: ub_bootloader.c:75-82 -/
def rpcBasicUserLed (impl : DeviceImpl) : Handler (DeviceState p) := fun req s =>
  if req.size - req.procPtr ≠ 0 then do
    let value ← Peek.read req.procPtr
    ilReply p req [impl.setUserLed value] s
  else pure (.returned s [])

/-- SOURCE: ub_bootloader.c:106-121 -/
def rpcBasicGetTime (impl : DeviceImpl) : Handler (DeviceState p) := fun req s =>
  ilReply p req [(impl.micros >>> 24).toUInt8, (impl.micros >>> 16).toUInt8,
    (impl.micros >>> 8).toUInt8, impl.micros.toUInt8] s

/-- SOURCE: ub_bootloader.c:123-127 -/
def rpcBasicRandom (impl : DeviceImpl) : Handler (DeviceState p) := fun req s =>
  ilReply p req [impl.rando] s

/-- SOURCE: ub_bootloader.c:129-137 -/
def rpcFunctionsBasic (impl : DeviceImpl) : List (Option (Handler (DeviceState p))) :=
  [some rpcBasicPing, some rpcBasicReplay, some (rpcBasicUserLed impl),
    some (rpcBasicGetTime impl), some (rpcBasicRandom impl)]

/-! ### Namespace 2 -/

/-- A value other than 0 and 1 is not answered.
SOURCE: ub_bootloader.c:140-155 -/
def rpcBootloaderPowerFunction : Handler (DeviceState p) := fun req s =>
  if req.size - req.procPtr = 0 then ilReply p req [EINVAL] s
  else do
    let value ← Peek.read req.procPtr
    if value = 0 then pure (.restarts s)
    else if value = 1 then pure (.jumps s)
    else pure (.returned s [])

/-- SOURCE: ub_bootloader.c:157-176 -/
def rpcBootloaderGetVar (impl : DeviceImpl) : Handler (DeviceState p) := fun req s =>
  if req.size - req.procPtr = 0 then ilReply p req [EINVAL] s
  else do
    let value ← Peek.read req.procPtr
    let res : UInt8 :=
      if value = 0 then s.flash.appRun.toUInt8
      else if value = 2 then s.resetFlag
      else if value = 3 then impl.hasApp.toUInt8
      else 0
    ilReply p req [res] s

/-- SOURCE: ub_bootloader.c:178-196 -/
def rpcBootloaderSetVar : Handler (DeviceState p) := fun req s =>
  if req.size - req.procPtr < 2 then ilReply p req [EINVAL] s
  else do
    let val ← Peek.read (req.procPtr + 1)
    let value ← Peek.read req.procPtr
    let s :=
      if value = 0 then { s with flash := { s.flash with appRun := decide (val ≠ 0) } }
      else if value = 2 then { s with resetFlag := val }
      else s
    ilReply p req [0] s

/-- The length of the request is not looked at.
SOURCE: ub_bootloader.c:200-219 -/
def rpcBootloaderReadCode (impl : DeviceImpl) : Handler (DeviceState p) := fun req s => do
  let high ← Peek.read req.procPtr
  let low ← Peek.read (req.procPtr + 1)
  let base := high.toUInt16 <<< 8 ||| low.toUInt16
  let length ← Peek.read (req.procPtr + 2)
  let size := if length > 32 then 32 else length.toNat
  let first ← Peek.read req.procPtr
  let second ← Peek.read (req.procPtr + 1)
  ilReply p req (first :: second :: (impl.readCode base size).toList) s

/-! ### Namespace 2:4 -/

/-- SOURCE: ub_bootloader.c:229-233 -/
def blfGetFlashStage : Handler (Flash p) := fun req s => ilReply p req [0, s.flashStage] s

/-- The answer that does not end the function.
SOURCE: ub_bootloader.c:238-241 -/
def answerStarted (req : RequestHead) (s : Flash p) : Look (List Packet) :=
  if s.flashStage = 1 then do
    let answer ← rpcResponse p req (pure [EALREADY])
    pure [answer]
  else pure []

/-- SOURCE: ub_bootloader.c:235-256 -/
def blfStartFlash : Handler (Flash p) := fun req s => do
  let early ← answerStarted req s
  if p.allocates then do
    let answer ← rpcResponse p req (pure [0])
    pure (.returned
      { s with
        appRun := false
        flashCrntAddress := UInt16.ofNat p.appStartAddress
        flashStage := 1 } (early ++ [answer]))
  else do
    let answer ← rpcResponse p req (pure [ENOMEM])
    pure (.returned s (early ++ [answer]))

/-- SOURCE: ub_bootloader.c:258-262 -/
def blfGetNextAddr : Handler (Flash p) := fun req s =>
  ilReply p req [highByte s.flashCrntAddress, lowByte s.flashCrntAddress] s

/-- `data[0]` or `data[1]` is not the next address.
SOURCE: ub_bootloader.c:310 -/
def otherAddress (req : RequestHead) (s : Flash p) : Look Bool := do
  let first ← Peek.read req.procPtr
  if first ≠ highByte s.flashCrntAddress then pure true
  else do
    let second ← Peek.read (req.procPtr + 1)
    pure (decide (second ≠ lowByte s.flashCrntAddress))

/-- The bytes that `fill_flash` reads are read before the first of them is stored here; it stores
none of them in the payload.
SOURCE: ub_bootloader.c:287-319 -/
def blfPushCode : Handler (Flash p) := fun req s =>
  if s.flashStage = 0 then ilReply p req [ENOTCONN] s
  else if req.size - req.procPtr < 3 then ilReply p req [EBADMSG] s
  else if s.flashCrntAddress < 0x1f00 then ilReply p req [EFAULT] s
  else do
    let other ← otherAddress req s
    if other then ilReply p req [ ENXIO] s
    else do
      let buf ← Peek.readBlock (req.procPtr + 2) (req.size - req.procPtr - 2)
      let s := s.fillFlash buf.1
      ilReply p req [0, highByte s.flashCrntAddress, lowByte s.flashCrntAddress] s

/-- SOURCE: ub_bootloader.c:321-352 -/
def commitFlash : Handler (Flash p) := fun req s =>
  if s.flashStage = 0 then ilReply p req [EBADFD] s
  else if s.flashCrntAddress < 0x1f00 then ilReply p req [EFAULT] s
  else
    let pages :=
      if s.flashCrntAddress.toNat % p.pageSize ≠ 0 then
        s.pages ++ [{ page := (s.flashCrntAddress &&& ~~~ Flash.pageBits p).toNat
                      data := s.flashTmp.toList.take
                        (s.flashCrntAddress &&& Flash.pageBits p).toNat }]
      else s.pages
    ilReply p req [0] { s with pages := pages, flashStage := 0 }

/-- SOURCE: ub_bootloader.c:354-363 -/
def bootloaderFlashFunctions : List (Option (Handler (Flash p))) :=
  [some blfGetFlashStage, some blfStartFlash, some blfGetNextAddr, some blfPushCode,
    some commitFlash]

/-- SOURCE: ub_bootloader.c:365-369 -/
def rpcBootloaderFlash : Handler (DeviceState p) := fun req s => do
  let ending ← dispatchFunctionChain p bootloaderFlashFunctions req s.flash
  pure (ending.map fun flash => { s with flash := flash })

/-! ### All namespaces -/

/-- SOURCE: ub_bootloader.c:371-380 -/
def rpcFunctionsBootloader (impl : DeviceImpl) : List (Option (Handler (DeviceState p))) :=
  [some rpcBootloaderPowerFunction, some (rpcBootloaderGetVar impl), some rpcBootloaderSetVar,
    some (rpcBootloaderReadCode impl), some rpcBootloaderFlash]

/-- The namespaces 3 and 4 have no functions.
SOURCE: ub_bootloader.c:384-410 -/
def rpcNsFunctions (impl : DeviceImpl) : List (Option (List (Option (Handler (DeviceState p))))) :=
  [none, some (rpcFunctionsBasic impl), some (rpcFunctionsBootloader impl), some [], some []]

/-- SOURCE: ub_bootloader.c:483-500 -/
def dispatch (impl : DeviceImpl) : Handler (DeviceState p) := fun req s =>
  if req.size = 0 then pure (.returned s [])
  else do
    let ns ← Peek.read req.procPtr
    if 0 ≤ req.fromAddress ∧ 0 < ns ∧ ns < 32 then
      dispatchDescriptorChain p (rpcNsFunctions impl) req s
    else pure (.returned s [])

end Device

/-- A device with its transport; `BUS_ADDRESS` is one constant. -/
structure DeviceBuild where
  host : HostBuild
  platform : Platform
  same_address : platform.busAddress = host.busAddress.toInt

/-! ## The other transports -/

/-- What can happen next in a device that is connected directly. -/
inductive DirectAction where
  /-- `ub_out_rec_byte`, from the interrupt of the UART. -/
  | byte (data : UInt16)
  /-- `ubh_manage_bus`, as far as it receives. -/
  | manage
  deriving DecidableEq, Repr

/-- SOURCE: direct.c:78-122, 145-149 -/
def directStep (build : HostBuild) (s : HostReceive) : DirectAction → Option HostReceive
  | .byte data => some (s.ubOutRecByte build data)
  | .manage => some (s.tryDispatchReceivedPacket build).1

/-- The buffer after a line of the standard input; `numbers` are those that `strtol` finds in it,
one behind the other, until it finds none.
SOURCE: ub_linux.c:59-72 -/
def ubReadStdin (build : HostBuild) (numbers : List ℤ) : HostReceive :=
  { received := true
    receivedData := (numbers.take build.maxPacketSize).map UInt8.ofInt
    mayCut := false }

end Uartbus.Model
