import Uartbus.Analysis.BusFate
import Uartbus.Analysis.MultiPart
import Uartbus.Analysis.PacketAddresses
import Uartbus.Analysis.SendBuffer

/-!
# The answer of a device

What `rpc_response` leaves in the send buffer, and what the bus of the PC makes of it.
`ub_pack_16_value` leaves out the flag of an address of two bytes.  The PC then reads one byte of it
as the address, so none of the answers of such a device is accepted (`answered_iff`).
-/

set_option autoImplicit false

namespace Uartbus.Analysis

open Lib Interface Model

/-! ## Addresses without their flag -/

section Unflagged

variable {v : Int16} {w : ℤ} {data rest : Bytes} {start used : ℕ}

theorem fieldBytes_of_twoByte (h : TwoByteAddress v) :
    ∃ first second, fieldBytes v = [first, second] ∧ first &&& 0x80 = 0 := by
  obtain ⟨hlong, hshort⟩ := h
  have hbyte : ∀ n < 128, UInt8.ofNat n &&& 0x80 = 0 := by decide
  unfold fieldBytes fieldLength
  rw [ubPack16Value_eq, if_neg (by omega), if_pos hshort, if_neg (by omega), if_pos hshort]
  refine ⟨_, _, rfl, hbyte _ ?_⟩
  split <;> omega

/-- What stands there is read as another address. -/
theorem unpackValue_unflagged (h : TwoByteAddress v)
    (hdata : data.drop start = fieldBytes v ++ rest)
    (hread : unpackValue true data start = .ok (w, used)) : w ≠ v.toInt ∧ I32 w := by
  obtain ⟨first, second, hfield, hflag⟩ := fieldBytes_of_twoByte h
  obtain ⟨hfit, -⟩ := unpackValue_field_ok hread
  have hused := usedBytes_of_unpackValue hread
  rw [hdata, hfield] at hused
  have hone := usedBytes_eq [] first (second :: rest) 1 (by simp) hflag
  obtain rfl : used = 1 := by simpa using hused.symm.trans hone
  have hsmall : packMagnitude w < 64 := by simpa [Fits] using hfit.2
  constructor
  · rintro rfl
    have hlarge := h.1
    omega
  · unfold packMagnitude at hsmall
    unfold I32
    split at hsmall <;> omega

/-- The parsed packet is not one between the two addresses. -/
theorem parse_unflagged {toAddress fromAddress : Int16} {p : ParsedUartBusPacket}
    (h : TwoByteAddress toAddress ∨ TwoByteAddress fromAddress)
    (hparse : ParsedUartBusPacket.new
      (fieldBytes toAddress ++ fieldBytes fromAddress ++ rest) = .ok p) :
    ¬ (p.toAddress = toAddress.toInt ∧ p.fromAddress = fromAddress.toInt) := by
  obtain ⟨to', from', payload, hfields, rfl⟩ := parse_ok_iff.mp hparse
  obtain ⟨n, m, hto, hfrom, -⟩ := fields_iff.mp hfields
  by_cases htwo : TwoByteAddress toAddress
  · obtain ⟨hne, hrange⟩ := unpackValue_unflagged htwo (List.append_assoc ..) hto
    exact fun hp => hne ((toI32_of_range _ hrange).symm.trans hp.1)
  · -- the first address is read as it is, so the second one is looked for where it stands
    obtain ⟨e, hpack, -, hiff⟩ := packValue_fieldBytes toAddress
    obtain rfl := hiff.mpr htwo
    obtain ⟨e, hpack', hread⟩ :=
      unpackValue_packed true toAddress.toInt (by simp)
    obtain rfl := Except.ok.inj (hpack.symm.trans hpack')
    have hunpack := hread [] (fieldBytes fromAddress ++ rest) true (.inl rfl)
    rw [List.nil_append, ← List.append_assoc] at hunpack
    obtain ⟨-, rfl⟩ := Prod.mk.inj (Except.ok.inj (hto.symm.trans hunpack))
    obtain ⟨hne, hrange⟩ := unpackValue_unflagged (h.resolve_left htwo)
      (by rw [List.append_assoc, List.drop_left]) hfrom
    exact fun hp => hne ((toI32_of_range _ hrange).symm.trans hp.2)

end Unflagged

/-! ## The answer -/

/-- The PC has called the function at `path` of the device, and the handler answers. -/
structure DeviceCall (build : HostBuild) where
  pc : Int16
  path : Bytes
  answer : ResponsePart
  fits : fieldLength pc + fieldLength build.busAddress + path.length + answer.data.length + 2 ≤
    build.maxPacketSize
  not_refused : path.length + answer.data.length + 4 < build.maxPacketSize

namespace DeviceCall

variable {build : HostBuild} (call : DeviceCall build)

/-- The bytes in the send buffer once the handler has used up the path of the request. -/
def reply (stack memory : ℕ → UInt8) (req : RpcRequest) : Bytes :=
  let out := rpcResponseAt build 0 stack { req with procPtr := call.path.length } [call.answer]
    (.untouched memory)
  readRange out.buffer.memory 0 out.sendSize

/-- The transaction at the PC. -/
def transaction : TransactionState := ⟨build.busAddress.toInt, call.pc.toInt, call.path, true⟩

/-- The bus of the PC while it waits. -/
def waiting (id next : ℕ) : UartBus := ⟨call.pc.toInt, [(id, call.transaction)], next⟩

/-- The answer behind the path. -/
def payload : Bytes := 0 :: (call.path ++ call.answer.data)

/-- The answer as it is sent, in the format of the addresses or not. -/
def wire : Bytes := fieldBytes call.pc ++ fieldBytes build.busAddress ++ call.payload

/-- The reply of the device, with its checksum. -/
theorem reply_eq (stack memory : ℕ → UInt8) {req : RpcRequest} {params : Bytes}
    (hfrom : req.fromAddress = call.pc.toInt) (hpayload : req.payload = call.path ++ params) :
    call.reply stack memory req = PacketAssembler.appendCrc8 call.wire := by
  have hmax := build.max_lt
  have hfits := call.fits
  -- one part fills the block of `alloca`, so nothing of the stack is sent
  have hdata : rpcResponseData stack { req with procPtr := call.path.length } [call.answer] =
      call.path ++ call.answer.data := by
    rw [respondsWithAll_of_fills (by simp [hpayload]) (by simp [joined]; omega) (by simp [joined])]
    simp [hpayload, joined]
  have hpc : Int16.ofInt req.fromAddress = call.pc := by rw [hfrom, Int16.ofInt_toInt]
  have hlength := packetHead_length build call.pc 0 (call.path ++ call.answer.data)
  have hsent : Sent (packetHead build call.pc 0 (call.path ++ call.answer.data))
      (.untouched memory) _ :=
    sendPacketPrivAt_sent rfl (by rw [List.length_append]; exact call.not_refused)
  rw [List.length_append] at hlength
  obtain ⟨-, hread⟩ := readRange_sent hsent (show _ < build.maxPacketSize by omega)
  unfold reply rpcResponseAt
  simp only [hdata, hpc]
  exact hread

variable (id next : ℕ)

theorem receive_of_flagged (hpc : ¬ TwoByteAddress call.pc)
    (hdev : ¬ TwoByteAddress build.busAddress) :
    ∃ bus, (call.waiting id next).receive (PacketAssembler.appendCrc8 call.wire) =
      (bus, .accepted id call.payload) := by
  obtain ⟨_, hto, -, hiffTo⟩ := packValue_fieldBytes call.pc
  obtain ⟨_, hfrom, -, hiffFrom⟩ := packValue_fieldBytes build.busAddress
  obtain rfl := hiffTo.mpr hpc
  obtain rfl := hiffFrom.mpr hdev
  have hrange : ∀ v : Int16, I32 v.toInt := by
    intro v
    have hlow := v.le_toInt
    have hhigh := v.toInt_lt
    constructor <;> omega
  have hfind : (call.waiting id next).pendingRequests.find? (fun t => t.2.tryAcceptResponse
      ⟨call.pc.toInt, build.busAddress.toInt, call.payload⟩) = some (id, call.transaction) := by
    simp [waiting, transaction, payload, TransactionState.tryAcceptResponse]
  exact receive_accepted hto hfrom (hrange _) (hrange _) hfind

theorem receive_of_unflagged (h : TwoByteAddress call.pc ∨ TwoByteAddress build.busAddress) :
    ∃ fate, (call.waiting id next).receive (PacketAssembler.appendCrc8 call.wire) =
      (call.waiting id next, fate) ∧ ∀ id' payload, fate ≠ .accepted id' payload := by
  unfold UartBus.receive
  simp only [getValidPacket_appendCrc8]
  cases hparse : ParsedUartBusPacket.new call.wire with
  | error err => simp
  | ok parsed =>
    have hrefused : call.transaction.tryAcceptResponse parsed.packet = false := by
      rw [Bool.eq_false_iff, ne_eq, tryAcceptResponse_iff]
      exact fun hmatch => parse_unflagged h hparse ⟨hmatch.1, hmatch.2.1⟩
    simp [UartBus.processPacket, waiting, hrefused]

/-- **A device answers a call.**  The waiting transaction of the PC gets the answer behind the path
exactly when neither address has two bytes, and otherwise it waits on.
SOURCE: ub_bootloader.c:39-59, 439-479; rpc.c:9-46; addr16.c:4-45; tools.rs:317-323;
packet.rs:254-270; rpc/bus.rs:45-66, 243-270 -/
theorem answered_iff (stack memory : ℕ → UInt8) (req : RpcRequest) (params : List UInt8)
    (hfrom : req.fromAddress = call.pc.toInt) (hpayload : req.payload = call.path ++ params) :
    ∃ bus fate, (call.waiting id next).receive (call.reply stack memory req) = (bus, fate) ∧
      (fate = .accepted id call.payload ↔
        ¬ TwoByteAddress call.pc ∧ ¬ TwoByteAddress build.busAddress) ∧
      (TwoByteAddress call.pc ∨ TwoByteAddress build.busAddress →
        bus = call.waiting id next) := by
  rw [call.reply_eq stack memory hfrom hpayload, ← not_or]
  by_cases h : TwoByteAddress call.pc ∨ TwoByteAddress build.busAddress
  · obtain ⟨fate, hreceive, hnot⟩ := call.receive_of_unflagged id next h
    exact ⟨_, fate, hreceive, iff_of_false (hnot _ _) (not_not.mpr h), fun _ => rfl⟩
  · obtain ⟨bus, hreceive⟩ := call.receive_of_flagged id next (not_or.mp h).1 (not_or.mp h).2
    exact ⟨bus, _, hreceive, iff_of_true rfl h, fun h' => absurd h' h⟩

/-- The PC with the address 10 calls `2:1` of the device with the address 1. -/
theorem answered_iff_short : ∃ call : DeviceCall defaultBuild, ∃ bus,
    (call.waiting 0 1).receive (call.reply (fun _ => 0) (fun _ => 0)
      ⟨1, 10, [2, 1], 0, by decide⟩) = (bus, .accepted 0 [0, 2, 1, 7]) := by
  obtain ⟨bus, fate, hreceive, hiff, -⟩ :=
    @answered_iff defaultBuild ⟨10, [2, 1], ⟨[7], by decide⟩, by decide, by decide⟩ 0 1
      (fun _ => 0) (fun _ => 0) ⟨1, 10, [2, 1], 0, by decide⟩ [] rfl rfl
  obtain rfl := hiff.mpr (by unfold TwoByteAddress; decide)
  exact ⟨_, bus, hreceive⟩

end DeviceCall

end Uartbus.Analysis
