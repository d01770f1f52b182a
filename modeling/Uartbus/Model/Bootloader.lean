import Uartbus.Lib.Bytes
import Mathlib.Algebra.GroupWithZero.Nat
import Mathlib.Data.Int.Notation
import Uartbus.Lib.Image
import Uartbus.Lib.Run

/-!
# The flash functions of the bootloader

The requests of namespace 2:4 and what they do to the flash state of a device.

Packets are taken with their addresses decoded and their checksum accepted.  A handler returns
the state with the answers it sent, in order; the answers are the calls of `reply`.  The calls
of `ubh_impl_write_program_page` are kept in a list, and `programMemory` says what they leave
in the program memory when each of them stores exactly the bytes it is given.

`int` has 16 bits, as on the AVR.
-/

set_option autoImplicit false

namespace Uartbus.Model

open Lib

/-- SOURCE: posix_errno.h:9-117 -/
def ENXIO : UInt8 := 6
def EBADF : UInt8 := 9
def ENOMEM : UInt8 := 12
def EFAULT : UInt8 := 14
def ENOSYS : UInt8 := 38
def EBADMSG : UInt8 := 74
def EBADFD : UInt8 := 77
def ENOTCONN : UInt8 := 107
def EALREADY : UInt8 := 114

structure Packet where
  toAddress : ℤ
  fromAddress : ℤ
  payload : Bytes
  deriving DecidableEq, Repr

/-- What a device is built for.  Each platform of the repository answers the request for
temporary storage always in the same way. -/
structure Platform where
  /-- `ubh_impl_get_program_page_size`. -/
  pageSize : ℕ
  /-- `APP_START_ADDRESS`. -/
  appStartAddress : ℕ
  /-- `BUS_ADDRESS`. -/
  busAddress : ℤ
  /-- `ubh_impl_go_upload_and_allocate_program_tmp_storage` returns an area. -/
  allocates : Bool
  isPow : ∃ k ≤ 7, pageSize = 2 ^ k
  aligned : pageSize ∣ appStartAddress
  start_ge : 0x1f00 ≤ appStartAddress

theorem Platform.pageSize_pos (p : Platform) : 0 < p.pageSize := by
  obtain ⟨k, -, hk⟩ := p.isPow
  rw [hk]
  exact Nat.two_pow_pos k

instance neZeroPageSize (p : Platform) : NeZero p.pageSize := ⟨Nat.ne_of_gt p.pageSize_pos⟩

/-- A call of `ubh_impl_write_program_page`; `data` are the first `size` bytes of the
buffer. -/
structure PageWrite where
  page : ℕ
  data : Bytes
  deriving DecidableEq, Repr

/-- The flash variables of the host.  `flashTmp` is the area that is allocated at the start; it
stays where it is.
SOURCE: ub_bootloader.c:8, 223-227 -/
structure Flash (p : Platform) where
  flashStage : UInt8
  flashCrntAddress : UInt16
  flashTmp : Vector UInt8 p.pageSize
  appRun : Bool
  pages : List PageWrite
  deriving DecidableEq, Repr

/-- The program memory after the calls of `ubh_impl_write_program_page`. -/
def programMemory (initial : ℕ → UInt8) (pages : List PageWrite) : ℕ → UInt8 :=
  pages.foldl (fun memory w => overlay memory w.page w.data) initial

/-- A request on its way through the dispatch tables; `procPtr` is how much of the path has
been used.  The size of the payload is a `uint8_t`.
SOURCE: rpc.h:24-33 -/
structure RpcRequest where
  toAddress : ℤ
  fromAddress : ℤ
  payload : Bytes
  procPtr : ℕ
  size_lt : payload.length < 256
  deriving DecidableEq, Repr

abbrev Handler (σ : Type) : Type := RpcRequest → σ → σ × List Packet

/-- `il_reply` through `rpc_response`: the path of the request and the bytes, in namespace 0.
SOURCE: rpc.c:60-79, ub_bootloader.c:39-59 -/
def ilReply (p : Platform) (req : RpcRequest) (bytes : Bytes) : Packet :=
  { toAddress := req.fromAddress
    fromAddress := p.busAddress
    payload := 0 :: (req.payload.take req.procPtr ++ bytes) }

/-- SOURCE: rpc.c:108-129 -/
def dispatchFunctionChain {σ : Type} (p : Platform) (chain : List (Option (Handler σ))) :
    Handler σ := fun req s =>
  match req.payload[req.procPtr]? with
  | some index =>
    match chain[index.toNat]? with
    | some (some func) => func { req with procPtr := req.procPtr + 1 } s
    | _ => (s, [ilReply p req [ENOSYS]])
  | none => (s, [ilReply p req [EBADF]])

/-- `(v >> 8) & 0xff`. -/
def highByte (v : UInt16) : UInt8 := ((v >>> 8) &&& 0xff).toUInt8

/-- `v & 0xff`. -/
def lowByte (v : UInt16) : UInt8 := (v &&& 0xff).toUInt8

namespace Flash

variable {p : Platform}

/-- `page_size-1`. -/
def pageBits (p : Platform) : UInt16 := UInt16.ofNat p.pageSize - 1

/-- SOURCE: ub_bootloader.c:230-233 -/
def blfGetFlashStage : Handler (Flash p) := fun req s =>
  (s, [ilReply p req [0, s.flashStage]])

/-- The first answer does not end the function.
SOURCE: ub_bootloader.c:236-256 -/
def blfStartFlash : Handler (Flash p) := fun req s =>
  let early := if s.flashStage = 1 then [ilReply p req [EALREADY]] else []
  if p.allocates then
    ({ s with
        appRun := false
        flashCrntAddress := UInt16.ofNat p.appStartAddress
        flashStage := 1 }, early ++ [ilReply p req [0]])
  else (s, early ++ [ilReply p req [ENOMEM]])

/-- SOURCE: ub_bootloader.c:259-262 -/
def blfGetNextAddr : Handler (Flash p) := fun req s =>
  (s, [ilReply p req [highByte s.flashCrntAddress, lowByte s.flashCrntAddress]])

/-- One round of the loop of `fill_flash`.
SOURCE: ub_bootloader.c:268-284 -/
def fillByte (s : Flash p) (b : UInt8) : Flash p :=
  let tmp := s.flashTmp.set (s.flashCrntAddress.toNat % p.pageSize) b
    (Nat.mod_lt _ p.pageSize_pos)
  let crnt := s.flashCrntAddress + 1
  { s with
    flashTmp := tmp
    flashCrntAddress := crnt
    pages :=
      if crnt.toNat % p.pageSize = 0 then
        s.pages ++ [{ page := ((crnt - 1) &&& ~~~ pageBits p).toNat, data := tmp.toList }]
      else s.pages }

/-- SOURCE: ub_bootloader.c:265-285 -/
def fillFlash (s : Flash p) (buf : Bytes) : Flash p := buf.foldl fillByte s

/-- SOURCE: ub_bootloader.c:288-319 -/
def blfPushCode : Handler (Flash p) := fun req s =>
  let data := req.payload.drop req.procPtr
  if s.flashStage = 0 then (s, [ilReply p req [ENOTCONN]])
  else if data.length < 3 then (s, [ilReply p req [EBADMSG]])
  else if s.flashCrntAddress < 0x1f00 then (s, [ilReply p req [EFAULT]])
  else if data.getD 0 0 ≠ highByte s.flashCrntAddress ∨
      data.getD 1 0 ≠ lowByte s.flashCrntAddress then
    (s, [ilReply p req [ ENXIO]])
  else
    let s := s.fillFlash (data.drop 2)
    (s, [ilReply p req [0, highByte s.flashCrntAddress, lowByte s.flashCrntAddress]])

/-- SOURCE: ub_bootloader.c:322-352 -/
def commitFlash : Handler (Flash p) := fun req s =>
  if s.flashStage = 0 then (s, [ilReply p req [EBADFD]])
  else if s.flashCrntAddress < 0x1f00 then (s, [ilReply p req [EFAULT]])
  else
    let pages :=
      if s.flashCrntAddress.toNat % p.pageSize ≠ 0 then
        s.pages ++ [{ page := (s.flashCrntAddress &&& ~~~ pageBits p).toNat
                      data := s.flashTmp.toList.take (s.flashCrntAddress &&& pageBits p).toNat }]
      else s.pages
    ({ s with pages := pages, flashStage := 0 }, [ilReply p req [0]])

/-- SOURCE: ub_bootloader.c:355-363 -/
def bootloaderFlashFunctions : List (Option (Handler (Flash p))) :=
  [some blfGetFlashStage, some blfStartFlash, some blfGetNextAddr, some blfPushCode,
    some commitFlash]

/-- SOURCE: ub_bootloader.c:366-369 -/
def rpcBootloaderFlash : Handler (Flash p) := dispatchFunctionChain p bootloaderFlashFunctions

/-- What a device does with a packet, for the requests of 2:4: it must be the target or be
meant by a group address, and the sender must not be a group.
SOURCE: ub_bootloader.c:483-500, 550-554 -/
def dispatch (s : Flash p) (packet : Packet) : Flash p × List Packet :=
  if h : (packet.toAddress < 1 ∨ packet.toAddress = p.busAddress) ∧ 0 ≤ packet.fromAddress ∧
      packet.payload.take 2 = [2, 4] ∧ packet.payload.length < 256 then
    rpcBootloaderFlash
      { toAddress := packet.toAddress
        fromAddress := packet.fromAddress
        payload := packet.payload
        procPtr := 2
        size_lt := h.2.2.2 } s
  else (s, [])

/-- The flash variables at power on; the area holds whatever the memory held. -/
def powerOn (tmp : Vector UInt8 p.pageSize) (appRun : Bool) : Flash p :=
  { flashStage := 0, flashCrntAddress := 0, flashTmp := tmp, appRun := appRun, pages := [] }

end Flash

end Uartbus.Model
