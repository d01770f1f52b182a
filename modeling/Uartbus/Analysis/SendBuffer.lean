import Mathlib.Data.List.GetD
import Uartbus.Analysis.HostPackets
import Uartbus.Model.PacketStores

/-!
# The send buffer of a device

`send_packet_priv` reserves four bytes for two addresses, the namespace and the checksum.  An
address takes up to three bytes, so a packet that is not refused can be larger than the buffer
(`buildsPacket_iff`).

`sendPacketPriv_mirrors` connects the stores with the list model of the buffer: they agree as long
as the checksum is computed over bytes of the buffer.
-/

set_option autoImplicit false

namespace Uartbus.Analysis

open Lib Interface Model

variable {memory : ℕ → UInt8}

/-! ## Packing an address -/

/-- How many bytes an address takes. -/
def fieldLength (v : Int16) : ℕ :=
  if packMagnitude v.toInt ≤ 63 then 1 else if packMagnitude v.toInt ≤ 8191 then 2 else 3

/-- The bytes that `ub_pack_16_value` leaves. -/
def fieldBytes (v : Int16) : Bytes := (ubPack16Value v [0, 0, 0]).2.take (fieldLength v)

theorem fieldLength_bounds (v : Int16) : 1 ≤ fieldLength v ∧ fieldLength v ≤ 3 := by
  unfold fieldLength
  split
  · omega
  · split <;> omega

@[simp] theorem fieldBytes_length (v : Int16) : (fieldBytes v).length = fieldLength v := by
  unfold fieldBytes fieldLength
  rw [ubPack16Value_eq]
  split
  · rfl
  · split <;> rfl

/-- The stores of `ub_pack_16_value`, and what they leave. -/
structure Packs (v : Int16) (arr : ℕ) (s : Stored UInt8) (r : ℤ × Stored UInt8) : Prop where
  count : r.1 = fieldLength v
  memory : r.2.memory = overlay s.memory arr (fieldBytes v)
  within : ∀ bound, s.Within bound → arr + fieldLength v ≤ bound → r.2.Within bound

/-- The stores of `ub_pack_16_value`. -/
theorem ubPack16ValueAt_packs (v : Int16) (arr : ℕ) {size : ℤ} (hsize : size ≠ 0)
    (s : Stored UInt8) : Packs v arr s (ubPack16ValueAt v arr size s) := by
  have hone : arr + 1 ≠ arr := by omega
  have htwo : arr + 2 ≠ arr := by omega
  have hnext : arr + 2 ≠ arr + 1 := by omega
  unfold ubPack16ValueAt
  rw [if_neg hsize]
  have hbytes : fieldBytes v = (ubPack16Value v [0, 0, 0]).2.take (fieldLength v) := rfl
  have hcount : fieldLength v = if addr16Magnitude v ≤ 63 then 1
      else if addr16Magnitude v ≤ 8191 then 2 else 3 := by
    rw [addr16Magnitude_eq]
    rfl
  unfold ubPack16Value at hbytes
  simp only [orStore]
  -- one, two or three bytes
  by_cases hshort : addr16Magnitude v ≤ 63 <;> by_cases hmiddle : addr16Magnitude v ≤ 8191
  all_goals
    simp only [hshort, hmiddle, if_true, if_false] at hcount hbytes ⊢
    rw [hcount] at hbytes
    constructor
    · rw [hcount]
      rfl
    · rw [hbytes]
      simp [overlay_cons, Nat.add_assoc, Function.update_comm hone, Function.update_comm htwo,
        Function.update_comm hnext]
    · intro bound hs hle
      simp only [Stored.within_store, hs, true_and]
      omega

/-! ## Building a packet -/

section Building

variable {build : HostBuild} {sendSize : ℕ} {toAddress : Int16} {ns : UInt8} {data head : Bytes}
  {s : Stored UInt8}

/-- The packet before its checksum. -/
def packetHead (build : HostBuild) (toAddress : Int16) (ns : UInt8) (data : Bytes) :
    Bytes := fieldBytes toAddress ++ fieldBytes build.busAddress ++ ns :: data

theorem packetHead_length (build : HostBuild) (toAddress : Int16) (ns : UInt8)
    (data : Bytes) : (packetHead build toAddress ns data).length =
    fieldLength toAddress + fieldLength build.busAddress + 1 + data.length := by
  simp only [packetHead, List.length_append, fieldBytes_length, List.length_cons]
  omega

/-- What a call that is not refused leaves. -/
structure Sent (head : Bytes) (s : Stored UInt8) (out : PacketOutcome) : Prop where
  returned : out.returned = true
  sendSize : out.sendSize = (head.length + 1) % 256
  memory : out.buffer.memory =
    overlay s.memory 0 (head ++ [ubCrc8 head (UInt8.ofNat head.length)])
  last : head.length ∈ out.buffer.written
  within : ∀ bound, s.Within bound → head.length < bound → out.buffer.Within bound

theorem sendPacketPrivAt_refused (h : sendSize ≠ 0 ∨ data.length + 4 ≥ build.maxPacketSize) :
    sendPacketPrivAt build sendSize toAddress ns data s = ⟨false, sendSize, s⟩ := if_pos h

/-- The checksum behind the other cells. -/
theorem sent_of_cells {cells : Stored UInt8} {ep : ℕ} (hend : ep + data.length = head.length)
    (hmemory : cells.memory = overlay s.memory 0 head)
    (hwithin : ∀ bound, s.Within bound → head.length ≤ bound → cells.Within bound) :
    Sent head s
      ⟨true, (data.length + ep + 1) % 256, cells.store (ep + data.length)
        (ubCrc8 (readRange cells.memory 0 (ep + data.length))
          (UInt8.ofNat (ep + data.length)))⟩ := by
  have hread := readRange_overlay s.memory 0 head
  rw [Nat.zero_add, ← hmemory] at hread
  rw [hend, hread]
  constructor
  · rfl
  · change (data.length + ep + 1) % 256 = _
    rw [Nat.add_comm data.length, hend]
  · rw [Stored.store_memory, hmemory, overlay_append, Nat.zero_add, overlay_singleton]
  · rw [Stored.store_written]
    exact List.mem_append_right _ List.mem_cons_self
  · intro bound hs hlt
    exact Stored.within_store.mpr ⟨hwithin bound hs (Nat.le_of_lt hlt), hlt⟩

/-- A packet with room in the buffer is stored with its checksum. -/
theorem sendPacketPrivAt_sent (hidle : sendSize = 0)
    (hroom : data.length + 4 < build.maxPacketSize) :
    Sent (packetHead build toAddress ns data) s
      (sendPacketPrivAt build sendSize toAddress ns data s) := by
  have hto := ubPack16ValueAt_packs toAddress 0 (show (build.maxPacketSize : ℤ) ≠ 0 by omega) s
  have htoBounds := fieldLength_bounds toAddress
  have hfrom := ubPack16ValueAt_packs build.busAddress (fieldLength toAddress)
    (show (build.maxPacketSize : ℤ) - fieldLength toAddress ≠ 0 by omega)
    (ubPack16ValueAt toAddress 0 build.maxPacketSize s).2
  have hfromBounds := fieldLength_bounds build.busAddress
  have hlength := packetHead_length build toAddress ns data
  unfold sendPacketPrivAt
  rw [if_neg (by omega)]
  simp only [hto.count, Int.toNat_natCast]
  rw [if_neg (by omega)]
  simp only [hfrom.count, Int.toNat_natCast]
  rw [if_neg (by omega)]
  apply sent_of_cells hlength.symm
  · rw [Stored.storeAll_memory, Stored.store_memory, hfrom.memory, hto.memory, ← overlay_cons,
      packetHead, overlay_append, overlay_append]
    simp only [List.length_append, fieldBytes_length, Nat.zero_add]
  · intro bound hs hle
    apply Stored.Within.storeAll _ (by omega)
    exact Stored.within_store.mpr
      ⟨hfrom.within _ (hto.within _ hs (by omega)) (by omega), by omega⟩

/-- The packet in the format of the addresses, all of it in the buffer. -/
structure BuildsPacket (build : HostBuild) (sendSize : ℕ) (toAddress : Int16) (ns : UInt8)
    (data : Bytes) (memory : ℕ → UInt8) : Prop where
  inBuffer : (sendPacketPrivAt build sendSize toAddress ns data (.untouched memory)).buffer.Within
    build.maxPacketSize
  packet : (sendPacketPrivAt build sendSize toAddress ns data (.untouched memory)).returned = true →
    (sendPacketPrivAt build sendSize toAddress ns data (.untouched memory)).sendSize ≤
      build.maxPacketSize ∧
    ∃ toField fromField, packValue true toAddress.toInt = .ok toField ∧
      packValue true build.busAddress.toInt = .ok fromField ∧
      readRange (sendPacketPrivAt build sendSize toAddress ns data
          (.untouched memory)).buffer.memory 0
        (sendPacketPrivAt build sendSize toAddress ns data (.untouched memory)).sendSize =
      PacketAssembler.appendCrc8 (toField ++ fromField ++ ns :: data)

/-- An address of two bytes, which `ub_pack_16_value` stores without the continuation flag. -/
def TwoByteAddress (v : Int16) : Prop :=
  64 ≤ packMagnitude v.toInt ∧ packMagnitude v.toInt ≤ 8191

theorem ubPack16Value_field (v : Int16) : ubPack16Value v [0, 0, 0] =
    ((fieldLength v : ℤ), fieldBytes v ++ [0, 0, 0].drop (fieldLength v)) := by
  unfold fieldBytes fieldLength
  rw [ubPack16Value_eq]
  split
  · rfl
  · split <;> rfl

/-- The field is the encoding of the address, except for two bytes. -/
theorem packValue_fieldBytes (v : Int16) :
    ∃ e, packValue true v.toInt = .ok e ∧ e.length = fieldLength v ∧
      (e = fieldBytes v ↔ ¬ TwoByteAddress v) := by
  obtain ⟨n, hshort, hpack⟩ := packValue_eq true v.toInt (fun h => absurd h (by decide))
  have hn := shortest_int16 hshort (packMagnitude_lt v)
  set e := packedBytes (decide (v.toInt < 0)) n (packMagnitude v.toInt) with he
  have hlength : e.length = fieldLength v := by
    rw [he, packedBytes_length, hn]
    rfl
  refine ⟨e, hpack, hlength, ?_⟩
  rw [TwoByteAddress, ← packAgrees_iff v [0, 0, 0] (by decide)]
  unfold PackAgrees
  rw [hpack, ubPack16Value_field]
  constructor
  · intro hequal
    exact ⟨e, rfl, by rw [hlength, hequal]⟩
  · rintro ⟨e', he', hagree⟩
    cases he'
    rw [Prod.mk.injEq] at hagree
    exact (List.append_inj_left hagree.2 (by rw [fieldBytes_length, hlength])).symm

theorem not_buildsPacket_of_overrun (hidle : sendSize = 0)
    (hroom : data.length + 4 < build.maxPacketSize)
    (hover : build.maxPacketSize <
      fieldLength toAddress + fieldLength build.busAddress + data.length + 2) :
    ¬ BuildsPacket build sendSize toAddress ns data memory := by
  intro h
  have hlast := h.inBuffer _ (sendPacketPrivAt_sent hidle hroom).last
  rw [packetHead_length] at hlast
  omega

/-- What is in the buffer when the packet fits. -/
theorem readRange_sent {out : PacketOutcome} (hsent : Sent head (.untouched memory) out)
    (hfit : head.length < build.maxPacketSize) :
    out.sendSize = head.length + 1 ∧
      readRange out.buffer.memory 0 out.sendSize = PacketAssembler.appendCrc8 head := by
  have hmax := build.max_lt
  have hsize : out.sendSize = head.length + 1 := by
    rw [hsent.sendSize, Nat.mod_eq_of_lt (by omega)]
  have hcrc := ubCrc8_eq head (show head.length < 256 by omega)
  rw [List.take_length] at hcrc
  have hread := readRange_overlay memory 0 (PacketAssembler.appendCrc8 head)
  refine ⟨hsize, ?_⟩
  rw [hsize, hsent.memory, hcrc]
  rw [PacketAssembler.appendCrc8, List.length_append, List.length_singleton, Nat.zero_add] at hread
  exact hread

/-- A packet is right exactly when it is refused, or its addresses have one or three bytes and it
fits into the buffer.
SOURCE: ub_bootloader.c:437-481, addr16.c:4-45, ubh.h:12-27 -/
theorem buildsPacket_iff (build : HostBuild) (sendSize : ℕ) (toAddress : Int16) (ns : UInt8)
    (data : List UInt8) (memory : ℕ → UInt8) :
    BuildsPacket build sendSize toAddress ns data memory ↔
      (sendSize ≠ 0 ∨ build.maxPacketSize ≤ data.length + 4) ∨
      (¬ TwoByteAddress toAddress ∧ ¬ TwoByteAddress build.busAddress ∧
        fieldLength toAddress + fieldLength build.busAddress + data.length + 2 ≤
          build.maxPacketSize) := by
  obtain ⟨toField, hto, htoLength, htoField⟩ := packValue_fieldBytes toAddress
  obtain ⟨fromField, hfrom, hfromLength, hfromField⟩ := packValue_fieldBytes build.busAddress
  have hlength := packetHead_length build toAddress ns data
  by_cases hrefuse : sendSize ≠ 0 ∨ build.maxPacketSize ≤ data.length + 4
  · refine ⟨fun _ => .inl hrefuse, fun _ => ?_⟩
    constructor
    · rw [sendPacketPrivAt_refused hrefuse]
      exact Stored.within_untouched memory
    · rw [sendPacketPrivAt_refused hrefuse]
      exact fun h => absurd h Bool.false_ne_true
  · have hidle : sendSize = 0 := by omega
    have hsent : Sent (packetHead build toAddress ns data) (.untouched memory) _ :=
      sendPacketPrivAt_sent hidle (by omega)
    constructor
    · intro h
      have hfit := h.inBuffer _ hsent.last
      obtain ⟨hsize, hread⟩ := readRange_sent hsent hfit
      obtain ⟨-, toField', fromField', hto', hfrom', hpacket⟩ := h.packet hsent.returned
      rw [hto] at hto'
      rw [hfrom] at hfrom'
      cases hto'
      cases hfrom'
      rw [hread] at hpacket
      have hhead := List.append_inj_left' hpacket rfl
      unfold packetHead at hhead
      have hfields := List.append_inj_left' hhead rfl
      obtain ⟨htoEq, hfromEq⟩ := List.append_inj hfields (by rw [fieldBytes_length, htoLength])
      exact .inr ⟨htoField.mp htoEq.symm, hfromField.mp hfromEq.symm, by omega⟩
    · rintro (hrefused | ⟨hoto, hofrom, hfit⟩)
      · exact absurd hrefused hrefuse
      · have hinside : (packetHead build toAddress ns data).length < build.maxPacketSize := by omega
        obtain ⟨hsize, hread⟩ := readRange_sent hsent hinside
        refine ⟨hsent.within _ (Stored.within_untouched memory) hinside, fun _ => ⟨?_, ?_⟩⟩
        · omega
        · refine ⟨toField, fromField, hto, hfrom, ?_⟩
          rw [hread, htoField.mpr hoto, hfromField.mpr hofrom]
          rfl

/-- A device with the address 1 and a buffer of the default size. -/
def defaultBuild : HostBuild where
  maxPacketSize := 48
  busAddress := 1
  max_lt := Nat.le_of_ble_eq_true rfl

/-- 43 bytes to an address of three bytes: the checksum is stored behind the buffer. -/
theorem defaultBuild_overrun :
    ¬ BuildsPacket defaultBuild 0 9000 1 (List.replicate 43 0) (fun _ => 0) :=
  not_buildsPacket_of_overrun rfl (by decide) (by decide)

end Building

/-! ## The list model of the buffer -/

section Lists

variable {s : Stored UInt8}

/-- Both models of `ub_pack_16_value` leave the same bytes in the array. -/
theorem ubPack16Value_readRange (v : Int16) {arr hi : ℕ} {size : ℤ} (hsize : size ≠ 0)
    (hhi : arr < hi) : ubPack16Value v (readRange s.memory arr hi) =
      ((ubPack16ValueAt v arr size s).1,
        readRange (ubPack16ValueAt v arr size s).2.memory arr hi) := by
  have hone : arr + 1 ≠ arr := by omega
  have htwo : arr + 2 ≠ arr := by omega
  unfold ubPack16Value ubPack16ValueAt
  rw [if_neg (by rw [readRange_length]; omega), if_neg hsize]
  simp only [readRange_set, orStore, Nat.add_zero]
  split_ifs <;> simp [Function.update_comm hone, Function.update_comm htwo]

/-- Both models of the copying loop. -/
theorem copyData_readRange (memory : ℕ → UInt8) (n ep : ℕ) (data : Bytes) :
    HostSend.copyData (readRange memory 0 n) ep data = readRange (overlay memory ep data) 0 n := by
  -- after `k` rounds, the first `k` bytes are stored
  have hrounds : HostSend.copyData (readRange memory 0 n) ep data =
      readRange (overlay memory ep (data.take data.length)) 0 n := by
    refine foldl_range_invariant _
      (fun k buffer => buffer = readRange (overlay memory ep (data.take k)) 0 n) _ _ (by simp) ?_
    rintro k hk _ rfl
    rw [readRange_set, List.take_succ_eq_append_getElem hk, overlay_append, overlay_singleton,
      List.length_take, Nat.min_eq_left hk.le, Nat.zero_add, List.getD_eq_getElem _ _ hk]
  rwa [List.take_length] at hrounds

/-- A field behind others. -/
theorem ubPack16Value_behind (v : Int16) {k n : ℕ} {size : ℤ} (hsize : size ≠ 0) (hk : k < n) :
    ubPack16Value v ((readRange s.memory 0 n).drop k) =
      ((ubPack16ValueAt v k size s).1, readRange (ubPack16ValueAt v k size s).2.memory k n) ∧
    (readRange s.memory 0 n).take k ++ readRange (ubPack16ValueAt v k size s).2.memory k n =
      readRange (ubPack16ValueAt v k size s).2.memory 0 n := by
  have hpacks := ubPack16ValueAt_packs v k hsize s
  have hbefore : readRange (ubPack16ValueAt v k size s).2.memory 0 k = readRange s.memory 0 k := by
    refine List.map_congr_left fun i hi => ?_
    rw [hpacks.memory]
    exact overlay_of_outside (.inl (by simpa using hi))
  have hlength : (readRange s.memory 0 k).length = k := readRange_length ..
  rw [← readRange_append _ (Nat.zero_le k) hk.le, List.drop_left' hlength, List.take_left' hlength,
    ← hbefore]
  exact ⟨ubPack16Value_readRange v hsize hk, readRange_append _ (Nat.zero_le k) hk.le⟩

/-- A checksum over bytes that both models have. -/
theorem ubCrc8_readRange (memory : ℕ → UInt8) {n hi : ℕ} (hn : n ≤ hi) (hhi : hi < 256) :
    ubCrc8 (readRange memory 0 hi) (UInt8.ofNat n) =
      ubCrc8 (readRange memory 0 n) (UInt8.ofNat n) := by
  have hlength : (readRange memory 0 n).length = n := readRange_length ..
  rw [ubCrc8_eq _ (by omega), ubCrc8_eq _ (by omega), ← readRange_append memory (Nat.zero_le n) hn,
    List.take_left' hlength, List.take_of_length_le hlength.le]

/-- Both models of `send_packet_priv`. -/
theorem sendPacketPriv_mirrors {build : HostBuild} {h : HostSend} {toAddress : Int16} {ns : UInt8}
    {data : Bytes} (hm : h.sendData = readRange s.memory 0 build.maxPacketSize)
    (hfit : fieldLength toAddress + fieldLength build.busAddress + 1 + data.length ≤
      build.maxPacketSize) :
    h.sendPacketPriv build toAddress ns data =
      (⟨(sendPacketPrivAt build h.sendSize toAddress ns data s).sendSize,
        readRange (sendPacketPrivAt build h.sendSize toAddress ns data s).buffer.memory 0
          build.maxPacketSize⟩,
        (sendPacketPrivAt build h.sendSize toAddress ns data s).returned) := by
  by_cases hrefuse : h.Refuses build data
  · rw [sendPacketPrivAt_refused hrefuse, HostSend.sendPacketPriv, if_pos hrefuse, ← hm]
  have htoBounds := fieldLength_bounds toAddress
  have hfromBounds := fieldLength_bounds build.busAddress
  have hsize : (build.maxPacketSize : ℤ) ≠ 0 := by omega
  have hrest : (build.maxPacketSize : ℤ) - fieldLength toAddress ≠ 0 := by omega
  have hto := ubPack16Value_readRange (s := s) toAddress hsize
    (show 0 < build.maxPacketSize by omega)
  have hfrom := ubPack16Value_behind (s := (ubPack16ValueAt toAddress 0 build.maxPacketSize s).2)
    build.busAddress hrest (show fieldLength toAddress < build.maxPacketSize by omega)
  have htoSome : ¬ ((fieldLength toAddress : ℤ) < 1) := by omega
  have hfromSome : ¬ ((fieldLength build.busAddress : ℤ) < 1) := by omega
  unfold sendPacketPrivAt HostSend.sendPacketPriv
  rw [if_neg (show ¬ (h.sendSize ≠ 0 ∨ _) from hrefuse), if_neg hrefuse]
  -- from here on both models do the same to the same cells
  simp only [hm, hto, (ubPack16ValueAt_packs toAddress 0 hsize s).count, Int.toNat_natCast,
    if_neg htoSome, hfrom.1, hfrom.2, (ubPack16ValueAt_packs build.busAddress _ hrest _).count,
    if_neg hfromSome, readRange_set, copyData_readRange, Stored.storeAll_memory,
    Stored.store_memory, Nat.zero_add]
  rw [ubCrc8_readRange _ hfit build.max_lt]

end Lists

end Uartbus.Analysis
