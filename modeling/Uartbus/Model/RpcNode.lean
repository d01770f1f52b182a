import Uartbus.Model.DeviceRequests

/-!
# The tree of namespaces

Requests are dispatched over a tree of nodes (rpc_node.c): a byte of the payload selects a sub-node,
and a function ends the walk.  Requests that start with 255 ask for the tree itself.

The payload is read from the memory that starts with it, read by read; the debug prints of the
source read it too, since the file defines `DEBUG_PRINT_STDERR` itself.  `procPtr` is a `uint8_t`.
Loops have fuel, and give nothing when it runs out.
-/

set_option autoImplicit false

namespace Uartbus.Model

open Lib

/-! ## Nodes -/

/-- A text that is ended by a zero byte. -/
structure CString where
  bytes : Bytes
  no_zero : 0 ∉ bytes
  deriving DecidableEq

/-- SOURCE: rpc_node.h:70-74 -/
structure NodeTexts where
  name : CString
  description : CString
  metaText : CString
  deriving DecidableEq

/-- A node is a namespace, a function or an advanced handler; the union of the source holds the
sub-nodes or the function.  Functions are values of `F`.
SOURCE: rpc_node.h:64-87 -/
inductive RpcNode (F : Type) where
  | space (ns : UInt8) (texts : NodeTexts) (subNodes : List (RpcNode F))
  | function (ns : UInt8) (texts : NodeTexts) (rpcFunction : F)
  | advanced (ns : UInt8) (texts : NodeTexts) (rpcExtFunction : F)

/-- SOURCE: rpc_node.h:129-134 -/
inductive RpcDispatchMode where
  | request | response | reflect
  deriving DecidableEq, Repr

variable {F : Type}

namespace RpcNode

def ns : RpcNode F → UInt8
  | space ns _ _ | function ns _ _ | advanced ns _ _ => ns

def texts : RpcNode F → NodeTexts
  | space _ texts _ | function _ texts _ | advanced _ texts _ => texts

/-- SOURCE: rpc_node.h:21-27 -/
def modifiers : RpcNode F → UInt8
  | space _ _ _ => 2
  | function _ _ _ => 1
  | advanced _ _ _ => 1 ||| 4

/-- The sub-nodes before the NULL of the list; only a namespace has them. -/
def subNodes : RpcNode F → List (RpcNode F)
  | space _ _ subNodes => subNodes
  | function _ _ _ | advanced _ _ _ => []

end RpcNode

/-- A call of a function, with the `procPtr` it finds in the request. -/
inductive RpcNodeCall (F : Type) where
  | plain (f : F) (procPtr : ℕ)
  | advanced (f : F) (procPtr : ℕ) (mode : RpcDispatchMode)
  deriving DecidableEq, Repr

/-- What a dispatch does: the functions it calls, the answers it sends itself, and what it
returns. -/
structure RpcOutcome (F : Type) where
  calls : List (RpcNodeCall F)
  replies : List Bytes
  returned : Bool
  deriving DecidableEq, Repr

namespace RpcOutcome

def refused : RpcOutcome F := ⟨[], [], false⟩

end RpcOutcome

/-- SOURCE: rpc_node.c:101-120 -/
def rpcGetNs (node : RpcNode F) (ns : UInt8) : Option (RpcNode F) :=
  (node.subNodes.take 256).find? fun sub => decide (ns = sub.ns)

/-- A namespace takes the next byte of the path; another node stays.
SOURCE: rpc_node.c:135-138, 267-269 -/
def selectSubNode (crnt : RpcNode F) (procPtr : ℕ) : Look (Option (RpcNode F) × ℕ) :=
  match crnt with
  | .space ns texts subNodes => do
    let next ← Peek.read procPtr
    pure (rpcGetNs (.space ns texts subNodes) next, (procPtr + 1) % 256)
  | node => pure (some node, procPtr)

/-! ## Requests and responses -/

/-- What is done with the selected node if it is a function.  `ext` says what an advanced handler
returns.
SOURCE: rpc_node.c:140-152 -/
def callNode (ext : F → ℕ → RpcDispatchMode → Bool) (mode : RpcDispatchMode) (procPtr : ℕ) :
    RpcNode F → Option (RpcOutcome F)
  | .space _ _ _ => none
  | .function _ _ f =>
    some (if mode = .request then ⟨[.plain f procPtr], [], true⟩ else .refused)
  | .advanced _ _ f => some ⟨[.advanced f procPtr mode], [], ext f procPtr mode⟩

/-- SOURCE: rpc_node.c:132-154 -/
def dispatchLoop (ext : F → ℕ → RpcDispatchMode → Bool) (mode : RpcDispatchMode) (size : ℕ) :
    ℕ → Option (RpcNode F) → ℕ → Look (Option (RpcOutcome F))
  | 0, _, _ => pure none
  | _ + 1, none, _ => pure (some .refused)
  | fuel + 1, some crnt, procPtr =>
    if procPtr < size then do
      let next ← selectSubNode crnt procPtr
      match next.1.bind (callNode ext mode next.2) with
      | some outcome => pure (some outcome)
      | none => dispatchLoop ext mode size fuel next.1 next.2
    else pure (some .refused)

/-- SOURCE: rpc_node.c:122-157 -/
def rpcDispatchWithMode (ext : F → ℕ → RpcDispatchMode → Bool) (fuel : ℕ) (node : RpcNode F)
    (size procPtr : ℕ) (mode : RpcDispatchMode) : Look (Option (RpcOutcome F)) :=
  if mode = .request ∨ mode = .response then dispatchLoop ext mode size fuel (some node) procPtr
  else pure (some .refused)

/-! ## Reflection -/

/-- `il_reply` and `il_reply_arr` through `rpc_response`, which copies the path.
SOURCE: rpc.c:48-79, ub_bootloader.c:49-56 -/
def replyWith (procPtr : ℕ) (data : Bytes) : Look (RpcOutcome F) := do
  let path ← Peek.readBlock 0 procPtr
  pure ⟨[], [path.1 ++ data], true⟩

/-- A part of a text: from where it starts, and at most how many bytes.
SOURCE: rpc_node.c:176-194 -/
def remoteStringPart (size procPtr : ℕ) (str : CString) : Look (RpcOutcome F) :=
  if size < procPtr + 1 then pure .refused
  else do
    let start ← Peek.read procPtr
    let len := UInt8.ofNat str.bytes.length
    if start ≥ len then replyWith procPtr []
    else do
      let len := len - start
      let most ← Peek.read (procPtr + 1 : ℕ)
      if len > most then do
        let most ← Peek.read (procPtr + 1 : ℕ)
        replyWith procPtr ((str.bytes.drop start.toNat).take most.toNat)
      else replyWith procPtr ((str.bytes.drop start.toNat).take len.toNat)

/-- SOURCE: rpc_node.c:159-197 -/
def rpcHandleRemoteString (size procPtr : ℕ) (str : CString) : Look (RpcOutcome F) := do
  let _ ← Peek.read procPtr
  if procPtr ≥ size then pure .refused
  else do
    let function ← Peek.read procPtr
    if function = 1 then
      replyWith ((procPtr + 1) % 256) [UInt8.ofNat str.bytes.length]
    else if function = 2 then remoteStringPart size ((procPtr + 1) % 256) str
    else pure .refused

/-- The count of a list of at most 255 sub-nodes.
SOURCE: rpc_node.c:199-215 -/
def rpcGetSubnodeCount (node : RpcNode F) : UInt8 := UInt8.ofNat node.subNodes.length

/-- The function 11: the `ns` of a sub-node.
SOURCE: rpc_node.c:237-245 -/
def nthSubnodeNs (node : RpcNode F) (procPtr : ℕ) : Look (RpcOutcome F) := do
  let rns ← Peek.read procPtr
  replyWith procPtr
    [if rpcGetSubnodeCount node ≤ rns then 0 else (node.subNodes[rns.toNat]?.map RpcNode.ns).getD 0]

/-- SOURCE: rpc_node.c:217-248 -/
def rpcHandleNodeReflectionRequest (node : RpcNode F) (size procPtr : ℕ) : Look (RpcOutcome F) := do
  let _ ← Peek.read procPtr
  let function ← Peek.read procPtr
  let procPtr := (procPtr + 1) % 256
  if function = 1 then replyWith procPtr [0, node.ns]
  else if function = 2 then replyWith procPtr [node.modifiers]
  else if function = 3 then rpcHandleRemoteString size procPtr node.texts.name
  else if function = 4 then rpcHandleRemoteString size procPtr node.texts.description
  else if function = 5 then rpcHandleRemoteString size procPtr node.texts.metaText
  else if function = 9 then replyWith procPtr [rpcGetSubnodeCount node]
  else if function = 11 then nthSubnodeNs node procPtr
  else pure .refused

/-- The walk along `10:x:10:y`, with the node it stops at.
SOURCE: rpc_node.c:264-279 -/
def reflectLoop (size : ℕ) :
    ℕ → Option (RpcNode F) → ℕ → Look (Option (Option (RpcNode F) × ℕ))
  | 0, _, _ => pure none
  | _ + 1, none, procPtr => pure (some (none, procPtr))
  | fuel + 1, some crnt, procPtr =>
    if procPtr < size then do
      let next ← selectSubNode crnt ((procPtr + 1) % 256)
      let peeked ← Peek.read next.2
      if peeked = 10 then reflectLoop size fuel next.1 next.2 else pure (some next)
    else pure (some (some crnt, procPtr))

/-- SOURCE: rpc_node.c:260-280 -/
def reflectWalk (fuel : ℕ) (node : RpcNode F) (size procPtr : ℕ) :
    Look (Option (Option (RpcNode F) × ℕ)) := do
  let first ← Peek.read procPtr
  if first = 10 then reflectLoop size fuel (some node) procPtr
  else pure (some (some node, procPtr))

/-- What follows the walk.
SOURCE: rpc_node.c:282-287 -/
def afterWalk (size : ℕ) : Option (Option (RpcNode F) × ℕ) → Look (Option (RpcOutcome F))
  | none => pure none
  | some (none, _) => pure (some .refused)
  | some (some crnt, procPtr) => do
    let outcome ← rpcHandleNodeReflectionRequest crnt size procPtr
    pure (some outcome)

/-- SOURCE: rpc_node.c:250-288 -/
def rpcDispatchReflectRequest (fuel : ℕ) (node : RpcNode F) (size procPtr : ℕ) :
    Look (Option (RpcOutcome F)) := do
  let _ ← Peek.read procPtr
  let walked ← reflectWalk fuel node size procPtr
  afterWalk size walked

/-- SOURCE: rpc_node.c:290-312 -/
def rpcDispatchRoot (ext : F → ℕ → RpcDispatchMode → Bool) (fuel : ℕ) (root : RpcNode F)
    (size procPtr : ℕ) : Look (Option (RpcOutcome F)) :=
  if procPtr ≥ size then pure (some .refused)
  else do
    let ns ← Peek.read procPtr
    if ns = 0 then rpcDispatchWithMode ext fuel root size ((procPtr + 1) % 256) .response
    else if ns = 255 then rpcDispatchReflectRequest fuel root size ((procPtr + 1) % 256)
    else rpcDispatchWithMode ext fuel root size procPtr .request

end Uartbus.Model
