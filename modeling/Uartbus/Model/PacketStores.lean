import Uartbus.Lib.Stores
import Uartbus.Model.Host

/-!
# The stores of the device's send path

`send_packet_priv` and `rpc_append_arr` with every store they make.  Neither the address packer nor
the copying loops look at the end of their buffer, so the buffers are cells of a memory here, and a
store behind the end is a store like any other.
-/

set_option autoImplicit false

namespace Uartbus.Model

open Lib

/-! ## The send buffer -/

/-- `arr[i] |= x` -/
def orStore (s : Stored UInt8) (i : ℕ) (x : UInt8) : Stored UInt8 := s.store i (s.memory i ||| x)

/-- The array starts at the cell `arr`.
SOURCE: addr16.c:4-45 -/
def ubPack16ValueAt (v : Int16) (arr : ℕ) (size : ℤ) (s : Stored UInt8) : ℤ × Stored UInt8 :=
  if size = 0 then (-EMSGSIZE, s)
  else
    let neg := decide (v.toInt < 0)
    let v := addr16Magnitude v
    let s := s.store arr (if neg then 0x40 else 0x00)
    if v ≤ 63 then (1, orStore s arr (UInt8.ofNat (v &&& 0x3f)))
    else if v ≤ 8191 then
      let s := s.store (arr + 1) (UInt8.ofNat (v &&& 0x7f))
      (2, orStore s arr (UInt8.ofNat (0x3f &&& (v >>> 7))))
    else
      let s := s.store (arr + 2) (UInt8.ofNat (v &&& 0x7f))
      let s := s.store (arr + 1) (UInt8.ofNat (((v >>> 7) &&& 0xff) ||| 0x80))
      (3, orStore s arr (UInt8.ofNat ((0x3f &&& (v >>> 14)) ||| 0x80)))

/-- What `send_packet_priv` returns, `send_size` afterwards and the memory that starts with
`send_data`. -/
structure PacketOutcome where
  returned : Bool
  sendSize : ℕ
  buffer : Stored UInt8

/-- `send_data` is the memory from the cell 0 on.
SOURCE: ub_bootloader.c:439-479 -/
def sendPacketPrivAt (build : HostBuild) (sendSize : ℕ) (toAddress : Int16) (ns : UInt8)
    (data : Bytes) (s : Stored UInt8) : PacketOutcome :=
  if sendSize ≠ 0 ∨ data.length + 4 ≥ build.maxPacketSize then ⟨false, sendSize, s⟩
  else
    let toField := ubPack16ValueAt toAddress 0 build.maxPacketSize s
    if toField.1 < 1 then ⟨false, sendSize, toField.2⟩
    else
      let ep := toField.1.toNat
      let fromField := ubPack16ValueAt build.busAddress ep (build.maxPacketSize - ep) toField.2
      if fromField.1 < 1 then ⟨false, sendSize, fromField.2⟩
      else
        let ep := ep + fromField.1.toNat
        let s := fromField.2.store ep ns
        let ep := ep + 1
        let s := s.storeAll ep data
        let crc := ubCrc8 (readRange s.memory 0 (ep + data.length)) (UInt8.ofNat (ep + data.length))
        ⟨true, (data.length + ep + 1) % 256, s.store (ep + data.length) crc⟩

/-! ## Replies of several parts -/

/-- SOURCE: rpc.h:18-22 -/
structure ResponsePart where
  data : Bytes
  size_lt : data.length < 256

def ResponsePart.size (part : ResponsePart) : UInt8 := UInt8.ofNat part.data.length

/-- SOURCE: rpc.c:9-18 -/
def rpcAppendSize (parts : List ResponsePart) : UInt8 :=
  UInt8.ofNat (parts.foldl (fun ds part => ds + part.size.toNat) 0)

/-- The loop from the next part on; `ds` is what has been copied.
SOURCE: rpc.c:26-45 -/
def rpcAppendFrom (dst : ℕ) (size : UInt8) (ds : ℕ) (s : Stored UInt8) :
    List ResponsePart → Int16 × Stored UInt8
  | [] => (Int16.ofNat ds, s)
  | part :: parts =>
    if size > part.size then (Int16.ofInt (-EMSGSIZE), s)
    else
      rpcAppendFrom (dst + part.size.toNat) (size - part.size) (ds + part.size.toNat)
        (s.storeAll dst part.data) parts

/-- The return value and the memory afterwards.
SOURCE: rpc.c:20-46 -/
def rpcAppendArr (dst : ℕ) (size : UInt8) (parts : List ResponsePart) (s : Stored UInt8) :
    Int16 × Stored UInt8 := rpcAppendFrom dst size 0 s parts

/-- The bytes that `rpc_response` gives to `send_packet_priv`; `alloca` hands out what the stack
holds.
SOURCE: ub_bootloader.c:39-59 -/
def rpcResponseData (stack : ℕ → UInt8) (req : RpcRequest) (parts : List ResponsePart) :
    Bytes :=
  let neg := req.procPtr
  let size := rpcAppendSize parts
  let d := (Stored.untouched stack).storeAll 0 (req.payload.take neg)
  let d := (rpcAppendArr neg size parts d).2
  readRange d.memory 0 ((size.toNat + neg) % 256)

/-- `rpc_response` on the memory that starts with `send_data`.
SOURCE: ub_bootloader.c:39-59 -/
def rpcResponseAt (build : HostBuild) (sendSize : ℕ) (stack : ℕ → UInt8) (req : RpcRequest)
    (parts : List ResponsePart) (s : Stored UInt8) : PacketOutcome :=
  sendPacketPrivAt build sendSize (Int16.ofInt req.fromAddress) 0
    (rpcResponseData stack req parts) s

end Uartbus.Model
