import Uartbus.Model.Upload

/-!
# Uploading over a link that loses answers

The link delivers every request once and in order, and the device answers at once; the answer
comes back or is lost.  Which answers are lost is given for each function by the number of the
request.

A device sends one packet for a request: `send_packet_priv` takes no second one while the first
has not been handed over.  So of several answers the first is sent.
-/

set_option autoImplicit false

namespace Uartbus.Model

open Lib

/-- The link of a client; `lost path k` says that the answer to the `k`-th request with the path
is lost. -/
structure LossyLink where
  fromAddress : ℤ
  lost : Bytes → ℕ → Bool

/-- A device, and the paths of the requests it has got. -/
structure Session (p : Platform) where
  device : Flash p
  asked : List Bytes

/-- What a request comes to.
SOURCE: rpc/bus.rs:308-326, 45-66, ub_bootloader.c:442-445 -/
def Session.respond {p : Platform} (link : LossyLink) (dev : UartBusDevice) (r : Request)
    (s : Session p) : Outcome × Session p :=
  let answered := s.device.dispatch ⟨dev.address, link.fromAddress, r.payload⟩
  let waiting : TransactionState := ⟨dev.address, link.fromAddress, r.path, true⟩
  let outcome : Outcome :=
    if r.awaited then
      match answered.2.head? with
      | some answer =>
        if link.lost r.path (s.asked.count r.path) then .timedOut
        else if waiting.tryAcceptResponse answer then .response answer.payload
        else .timedOut
      | none => .timedOut
    else .sent
  (outcome, { device := answered.1, asked := s.asked ++ [r.path] })

/-- The next statements of `push_code`, at most as many as the number says.
SOURCE: upload.rs:159-235 -/
def pushCodeFrom (dev : UartBusDevice) (code : CodeSegment) :
    ℕ → UploadPoint → ClientProgram UploadPoint
  | 0, point => .done point
  | n + 1, point => (pushCodeAt dev code point).bind (pushCodeFrom dev code n)

/-- `push_code` returns the result. -/
def PushCodeReturns {p : Platform} (link : LossyLink) (dev : UartBusDevice) (code : CodeSegment)
    (device : Flash p) (result : Except RpcError UInt16) : Prop :=
  ∃ n s, (pushCodeFrom dev code n .staging).exec (Session.respond link dev) ⟨device, []⟩ =
    some (.returned result, s)

end Uartbus.Model
