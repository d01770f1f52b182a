import Uartbus.Analysis.AddressCodec
import Uartbus.Model.Host
import Uartbus.Model.RpcTools

/-!
# Packets from the PC to a device

A packet of `to_packet` is the two packed addresses, the bytes of the values and the checksum
(`toPacket_bytes`).  The device reads it back: its checksum function is the same, and addresses
of one and two bytes are read alike by both sides (`device_understands_packet`).

`decodeReceived_badAddress_iff` says which packets with a good checksum the device cannot read
an address of.
-/

set_option autoImplicit false

namespace Uartbus.Analysis

open Lib Interface Model

variable {v : ℤ}

/-! ## What the PC builds -/

/-- An address is added to the packet. -/
theorem writeAddress_eq (buffer : Bytes) (v : ℤ) :
    ∃ encoded, packValue true v = .ok encoded ∧
      PacketAssembler.writeAddress buffer v = .ok (buffer ++ encoded) := by
  obtain ⟨n, -, henc⟩ := packValue_eq true v (by simp)
  refine ⟨_, henc, ?_⟩
  have hinto := packValueInto_end true v (by simp) buffer _ henc
  simp only [PacketAssembler.writeAddress, PacketAssembler.writePackedValue, henc, bind,
    Except.bind, hinto, pure, Except.pure]

/-- The two addresses of a packet, the target first. -/
theorem writeAddressing_eq (fromAddress toAddress : ℤ) :
    ∃ toField fromField, packValue true toAddress = .ok toField ∧
      packValue true fromAddress = .ok fromField ∧
      PacketAssembler.writeAddressing [] fromAddress toAddress = .ok (toField ++ fromField) := by
  obtain ⟨toField, hto, hwriteTo⟩ := writeAddress_eq [] toAddress
  obtain ⟨fromField, hfrom, hwriteFrom⟩ := writeAddress_eq toField fromAddress
  refine ⟨toField, fromField, hto, hfrom, ?_⟩
  rw [List.nil_append] at hwriteTo
  simp only [PacketAssembler.writeAddressing, bind, Except.bind, hwriteTo, hwriteFrom]

theorem toPacket_bytes (toAddress fromAddress : ℤ) (payload : Bytes) :
    ∃ toField fromField, packValue true toAddress = .ok toField ∧
      packValue true fromAddress = .ok fromField ∧
      toPacket toAddress fromAddress [.bytes payload] =
        .ok (PacketAssembler.appendCrc8 (toField ++ fromField ++ payload)) := by
  obtain ⟨toField, fromField, hto, hfrom, hwrite⟩ := writeAddressing_eq fromAddress toAddress
  refine ⟨toField, fromField, hto, hfrom, ?_⟩
  have helements : appendElements [.bytes payload] = .ok payload := by
    simp [appendElements, appendValue, bind, Except.bind, pure, Except.pure]
  simp only [toPacket, bind, Except.bind, hwrite, helements, pure, Except.pure]

/-- An address of 14 bits has one or two bytes. -/
theorem packValue_address (hlow : -8192 ≤ v) (hhigh : v ≤ 8191) :
    packValue true v = .ok (packedBytes (decide (v < 0)) (if packMagnitude v ≤ 63 then 1 else 2)
      (packMagnitude v)) ∧ Fits true (if packMagnitude v ≤ 63 then 1 else 2) (packMagnitude v) := by
  obtain ⟨n, hshort, hpack⟩ := packValue_eq true v (by simp)
  have hm : packMagnitude v ≤ 8191 := by
    unfold packMagnitude
    split <;> omega
  have hn := shortest_int16 hshort (by omega)
  rw [if_pos hm] at hn
  rw [← hn]
  exact ⟨hpack, hshort.1⟩

/-- It is read back with whatever follows it. -/
theorem unpackValue_address (hlow : -8192 ≤ v) (hhigh : v ≤ 8191) {encoded : Bytes}
    (henc : packValue true v = .ok encoded) :
    1 ≤ encoded.length ∧ encoded.length ≤ 2 ∧
      ∀ post, unpackValue true (encoded ++ post) 0 = .ok (v, encoded.length) := by
  obtain ⟨hpack, hfit⟩ := packValue_address hlow hhigh
  rw [hpack] at henc
  obtain rfl := Except.ok.inj henc
  rw [packedBytes_length]
  refine ⟨hfit.1, ?_, fun post => ?_⟩
  · split <;> simp
  · have hread := unpackValue_packedBytes hfit (fun _ : decide (v < 0) = true => rfl) [] post
    rw [signedValue_packMagnitude] at hread
    exact hread

/-! ## What the device reads -/

/-- Both sides compute the same checksum. -/
theorem ubCrc8_eq (data : Bytes) {n : ℕ} (hn : n < 256) :
    ubCrc8 data (UInt8.ofNat n) = crc8 (data.take n) := by
  unfold ubCrc8 crc8 crc8Prefix
  rw [UInt8.toNat_ofNat', Nat.mod_eq_of_lt (by simpa using hn), List.take_length]

/-- An address of one or two bytes is read by the C function as well. -/
theorem ubUnpack16Value_short {buf : Bytes} {used : ℕ}
    (h : unpackValue true buf 0 = .ok (v, used)) (hused : used ≤ 2) :
    ∃ w : Int16, ubUnpack16Value 0 buf = ((used : ℤ), w) ∧ w.toInt = v := by
  have hne : buf ≠ [] := by
    rintro rfl
    simp [unpackValue, usedBytes, bind, Except.bind] at h
  rcases unpack_cases 0 hne with ⟨w, used', -, -, hub, hrust⟩ | ⟨-, hlong⟩
  · rw [h] at hrust
    simp only [Except.ok.injEq, Prod.mk.injEq] at hrust
    exact ⟨w, by rw [hub, hrust.2], hrust.1.symm⟩
  · have := hlong v used h
    omega

/-- The payload stands between the addresses and the checksum. -/
theorem copyPayload_payload (toAddress fromAddress : Int16) {addresses payload packet : Bytes}
    (hpacket : packet = PacketAssembler.appendCrc8 (addresses ++ payload))
    (hshort : packet.length ≤ 256) :
    (copyPayload toAddress fromAddress packet addresses.length).payload = payload := by
  have hlen : packet.length = addresses.length + payload.length + 1 := by
    rw [hpacket, PacketAssembler.appendCrc8, List.length_append, List.length_append,
      List.length_singleton]
  have hsize : packet.length - addresses.length - 1 = payload.length := by omega
  have hmod : payload.length % 256 = payload.length := Nat.mod_eq_of_lt (by omega)
  have hdrop : packet.drop addresses.length = payload ++ [crc8 (addresses ++ payload)] := by
    rw [hpacket, PacketAssembler.appendCrc8, List.append_assoc, List.drop_left]
  simp only [copyPayload, hsize, hmod, hdrop, List.take_left]

/-- The device decodes a buffer with two readable addresses and a good checksum. -/
theorem decodeReceived_eq {toField fromField payload : Bytes} {toAddress fromAddress : Int16}
    (hto : ubUnpack16Value 0 (toField ++ fromField ++ payload) = ((toField.length : ℤ), toAddress))
    (hfrom : ubUnpack16Value 0 (fromField ++ payload) = ((fromField.length : ℤ), fromAddress))
    (htoPos : 1 ≤ toField.length) (hfromPos : 1 ≤ fromField.length)
    (hlong : 3 < (PacketAssembler.appendCrc8 (toField ++ fromField ++ payload)).length)
    (hshort : (PacketAssembler.appendCrc8 (toField ++ fromField ++ payload)).length ≤ 256) :
    ∃ req, decodeReceived (PacketAssembler.appendCrc8 (toField ++ fromField ++ payload)) =
        .request req ∧
      req.toAddress = toAddress.toInt ∧ req.fromAddress = fromAddress.toInt ∧
      req.payload = payload := by
  set body := toField ++ fromField ++ payload with hbody
  set packet := PacketAssembler.appendCrc8 body with hpacket
  have hlen : packet.length = body.length + 1 := by simp [hpacket, PacketAssembler.appendCrc8]
  have htake : packet.take (packet.length - 1) = body := by
    rw [hlen, Nat.add_sub_cancel, hpacket, PacketAssembler.appendCrc8, List.take_left]
  have hlast : packet.getD (packet.length - 1) 0 = crc8 body := by
    rw [hlen, Nat.add_sub_cancel, hpacket, PacketAssembler.appendCrc8]
    simp
  have hcrc : ubCrc8 packet (UInt8.ofNat (packet.length - 1)) =
      packet.getD (packet.length - 1) 0 := by
    rw [ubCrc8_eq packet (by omega), htake, hlast]
  have hrest : body.drop toField.length = fromField ++ payload := by
    rw [hbody, List.append_assoc, List.drop_left]
  refine ⟨copyPayload toAddress fromAddress packet (toField.length + fromField.length), ?_, rfl,
    rfl, ?_⟩
  · unfold decodeReceived
    simp only [hcrc, ne_eq, not_true_eq_false, if_false, htake, hto, hrest, hfrom,
      Int.toNat_natCast]
    rw [if_neg (by omega), if_neg (by omega), if_neg (by omega)]
  · rw [← List.length_append]
    exact copyPayload_payload _ _ rfl hshort

/-- What `try_dispatch_received_packet` does with a decoded request. -/
theorem tryDispatch_of_request {build : HostBuild} {s : HostReceive} {req : RpcRequest}
    (hs : s.received = true) (hreq : decodeReceived s.receivedData = .request req) :
    (s.tryDispatchReceivedPacket build).2 =
      if req.toAddress < 1 ∨ build.busAddress.toInt = req.toAddress then some req else none := by
  simp only [HostReceive.tryDispatchReceivedPacket, hs, if_true, hreq]

/-- **A packet of the PC is understood.**  For addresses of 14 bits and every payload the PC
builds a packet, and a device that finds it in its buffer decodes the same addresses and the
same payload, and dispatches the request exactly when it is the target or a group is meant.
SOURCE: ub_bootloader.c:504-567, addr16.c:49-107, rpc/tools.rs:123-129, packet.rs:94-119 -/
theorem device_understands_packet (build : HostBuild) (toAddress fromAddress : ℤ)
    (hto : -8192 ≤ toAddress ∧ toAddress ≤ 8191)
    (hfrom : -8192 ≤ fromAddress ∧ fromAddress ≤ 8191) (payload : List UInt8) :
    ∃ packet, toPacket toAddress fromAddress [.bytes payload] = .ok packet ∧
      (3 < packet.length → packet.length ≤ build.maxPacketSize →
        ∀ s : HostReceive, s.received = true → s.receivedData = packet →
          ∃ req, decodeReceived s.receivedData = .request req ∧
            req.toAddress = toAddress ∧ req.fromAddress = fromAddress ∧ req.payload = payload ∧
            (s.tryDispatchReceivedPacket build).2 =
              if toAddress < 1 ∨ toAddress = build.busAddress.toInt then some req else none) := by
  obtain ⟨toField, fromField, hencTo, hencFrom, hpacket⟩ :=
    toPacket_bytes toAddress fromAddress payload
  refine ⟨_, hpacket, fun hlong hmax s hs hdata => ?_⟩
  obtain ⟨htoPos, htoLe, hreadTo⟩ := unpackValue_address hto.1 hto.2 hencTo
  obtain ⟨hfromPos, hfromLe, hreadFrom⟩ := unpackValue_address hfrom.1 hfrom.2 hencFrom
  obtain ⟨w, hubTo, hw⟩ := ubUnpack16Value_short (hreadTo (fromField ++ payload)) htoLe
  obtain ⟨x, hubFrom, hx⟩ := ubUnpack16Value_short (hreadFrom payload) hfromLe
  rw [← List.append_assoc] at hubTo
  have hfit : (PacketAssembler.appendCrc8 (toField ++ fromField ++ payload)).length ≤ 256 :=
    hmax.trans build.max_lt.le
  obtain ⟨req, hreq, hreqTo, hreqFrom, hreqPayload⟩ :=
    decodeReceived_eq hubTo hubFrom htoPos hfromPos hlong hfit
  rw [← hdata] at hreq
  refine ⟨req, hreq, by rw [hreqTo, hw], by rw [hreqFrom, hx], hreqPayload, ?_⟩
  rw [tryDispatch_of_request hs hreq, hreqTo, hw]
  simp only [eq_comm]

/-- A ping from 10 to the group -100, at a device with the address 12. -/
theorem device_understands_group_ping :
    ∃ packet, toPacket (-100) 10 [.bytes [1, 0]] = .ok packet ∧
      packet = [0xc0, 0x63, 10, 1, 0, 0x94] ∧
      ∀ s : HostReceive, s.received = true → s.receivedData = packet →
        ∃ req, decodeReceived s.receivedData = .request req ∧
          req.toAddress = -100 ∧ req.fromAddress = 10 ∧ req.payload = [1, 0] ∧
          (s.tryDispatchReceivedPacket ⟨48, 12, by decide⟩).2 = some req := by
  obtain ⟨packet, hpacket, hread⟩ :=
    device_understands_packet ⟨48, 12, by decide⟩ (-100) 10 (by decide) (by decide) [1, 0]
  obtain ⟨toField, fromField, hto, hfrom, hbytes⟩ := toPacket_bytes (-100) 10 [1, 0]
  rw [(packValue_address (by decide) (by decide)).1] at hto hfrom
  obtain rfl := Except.ok.inj hto
  obtain rfl := Except.ok.inj hfrom
  obtain rfl := Except.ok.inj (hpacket.symm.trans hbytes)
  refine ⟨_, hbytes, by decide, fun s hs hdata => ?_⟩
  obtain ⟨req, hreq, hreqTo, hreqFrom, hreqPayload, hdispatch⟩ :=
    hread (by decide) (by decide) s hs hdata
  exact ⟨req, hreq, hreqTo, hreqFrom, hreqPayload, by simpa using hdispatch⟩

/-! ## Addresses the device cannot read -/

/-- The first byte has the continuation flag, and so has the second one if there is one. -/
def Unreadable (field : Bytes) : Prop :=
  128 ≤ (field.getD 0 0).toNat ∧ (field.length = 1 ∨ 128 ≤ (field.getD 1 0).toNat)

instance (field : Bytes) : Decidable (Unreadable field) :=
  inferInstanceAs (Decidable (_ ∧ _))

/-- The number of bytes of a readable address. -/
def addressLength (field : Bytes) : ℕ := if 128 ≤ (field.getD 0 0).toNat then 2 else 1

/-- How many bytes `ub_unpack_16_value` says it has used. -/
theorem ubUnpack16Value_used (field : Bytes) (hne : field ≠ []) :
    ((ubUnpack16Value 0 field).1 < 1 ↔ Unreadable field) ∧
      (¬ Unreadable field → (ubUnpack16Value 0 field).1 = addressLength field) := by
  obtain ⟨b, rest, rfl⟩ := List.exists_cons_of_ne_nil hne
  unfold Unreadable addressLength
  by_cases hb : b.toNat < 128
  · obtain ⟨w, hw, -⟩ := ubUnpack16Value_one 0 b rest hb
    simp [hw, hb]
  · have hb' : 128 ≤ b.toNat := Nat.not_lt.mp hb
    cases rest with
    | nil =>
      have hlong := ubUnpack16Value_long 0 b [] hb' (by simp)
      simp only [List.getD_cons_zero, hb', List.length_singleton, true_or, and_true,
        not_true_eq_false, false_implies, iff_true]
      omega
    | cons c rest =>
      by_cases hc : c.toNat < 128
      · obtain ⟨w, hw, -⟩ := ubUnpack16Value_two 0 b c rest hb' hc
        simp [hw, hb', hc]
      · have hlong := ubUnpack16Value_long 0 b (c :: rest) hb' (by simpa using hc)
        simp only [List.getD_cons_zero, List.getD_cons_succ, hb', Nat.not_lt.mp hc, or_true,
          and_true, not_true_eq_false, false_implies, iff_true]
        omega

/-- A packet with a good checksum and an address that cannot be read: the device leaves it in
its buffer. -/
def HoldsBuffer (packet : Bytes) : Prop :=
  3 < packet.length ∧ crc8 packet.dropLast = packet.getD (packet.length - 1) 0 ∧
    (Unreadable packet.dropLast ∨
      Unreadable (packet.dropLast.drop (addressLength packet.dropLast)))

instance (packet : Bytes) : Decidable (HoldsBuffer packet) :=
  inferInstanceAs (Decidable (_ ∧ _))

/-- A packet is refused for an address that cannot be read. -/
theorem decodeReceived_badAddress_iff {packet : Bytes} (hsize : packet.length ≤ 256) :
    decodeReceived packet = .badAddress ↔ HoldsBuffer packet := by
  have htake : packet.take (packet.length - 1) = packet.dropLast :=
    (List.dropLast_eq_take).symm
  unfold decodeReceived HoldsBuffer
  simp only [ubCrc8_eq packet (show packet.length - 1 < 256 by omega), htake]
  by_cases hcrc : crc8 packet.dropLast = packet.getD (packet.length - 1) 0
  · by_cases hlong : packet.length ≤ 3
    · simp only [hcrc, ne_eq, not_true_eq_false, if_false, if_pos hlong, Nat.not_lt.mpr hlong,
        false_and, reduceCtorEq]
    · have hlen : packet.dropLast.length = packet.length - 1 := List.length_dropLast
      have hto := ubUnpack16Value_used packet.dropLast
        (by rw [← List.length_pos_iff]; omega)
      simp only [hcrc, ne_eq, not_true_eq_false, if_false, if_neg hlong, Nat.not_le.mp hlong,
        true_and]
      by_cases hbad : Unreadable packet.dropLast
      · rw [if_pos (hto.1.mpr hbad)]
        simp [hbad]
      · have hused := hto.2 hbad
        have hle : addressLength packet.dropLast ≤ 2 := by
          unfold addressLength
          split <;> omega
        have hfrom := (ubUnpack16Value_used
          (packet.dropLast.drop (addressLength packet.dropLast))
          (by rw [← List.length_pos_iff, List.length_drop]; omega)).1
        rw [if_neg (fun h => hbad (hto.1.mp h)), hused, Int.toNat_natCast, ← hfrom]
        split
        next h => simp [h]
        next h => simp [hbad, h]
  · rw [if_pos hcrc]
    simp only [hcrc, false_and, and_false, reduceCtorEq]

end Uartbus.Analysis
