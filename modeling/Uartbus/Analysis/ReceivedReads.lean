import Mathlib.Data.List.GetD
import Uartbus.Analysis.PacketAddresses
import Uartbus.Model.DeviceRequests

/-!
# The reads of a received packet

`readReceived` is `decodeReceived` with its reads.  On a packet that is not empty both give the same
(`readReceived_value`), and every read is inside of the packet; with an empty one the byte before
the buffer is read (`readReceived_readsIn_iff`).  `brings_iff` says which packets bring a request to
a device, in the terms of the packet format.
-/

set_option autoImplicit false

namespace Uartbus.Analysis

open Lib Interface Model

variable {arr data packet : Bytes} {size : ℕ} {req : ℤ}

/-- The indices of an array with `n` cells. -/
def InBounds (n : ℕ) (i : ℤ) : Prop := 0 ≤ i ∧ i < n

/-! ## An address -/

section Address

variable {P : ℤ → Prop} {mem : ℤ → UInt8}

theorem block_eq_nil_iff (i : ℤ) (n : ℕ) : Peek.block mem i n = [] ↔ n = 0 := by
  rw [← List.length_eq_zero_iff, Peek.block_length]

theorem scanReqAt_value (left : ℕ) (i req : ℤ) :
    (scanReqAt left i req).value mem = scanReq (Peek.block mem i left) req := by
  induction left generalizing i req with
  | zero => rfl
  | succ left ih =>
    simp only [scanReqAt, Peek.value_bind, Peek.value_read, Peek.value_ite, Peek.value_pure,
      Peek.block, scanReq, block_eq_nil_iff, ih]

theorem scanReqAt_readsIn (left : ℕ) (i req : ℤ) (hP : ∀ k < left, P (i + k)) :
    Peek.ReadsIn P (scanReqAt left i req) mem := by
  induction left generalizing i req with
  | zero => exact Peek.readsIn_pure _
  | succ left ih =>
    have hi : P i := by simpa using hP 0 (by omega)
    have hrest : ∀ k < left, P (i + 1 + k) := by
      intro k hk
      have := hP (k + 1) (by omega)
      rwa [show i + ((k + 1 : ℕ) : ℤ) = i + 1 + k by push_cast; omega] at this
    simp only [scanReqAt, Peek.readsIn_bind, Peek.readsIn_read, hi, true_and]
    split
    · split
      · exact Peek.readsIn_pure _
      · split
        · exact Peek.readsIn_pure _
        · exact ih _ _ hrest
    · exact Peek.readsIn_pure _

/-- Every counted byte is there. -/
theorem scanReq_ok {r : ℤ} (hne : arr ≠ []) (h : scanReq arr req = .ok r) :
    req ≤ r ∧ r < req + arr.length := by
  induction arr generalizing req with
  | nil => exact absurd rfl hne
  | cons b rest ih =>
    rw [scanReq] at h
    rw [List.length_cons]
    split at h
    · split at h
      · simp at h
      · rename_i hrest
        split at h
        · simp at h
        · have := ih hrest h
          omega
    · obtain rfl := Except.ok.inj h
      omega

/-- The bytes of an address of `req` bytes. -/
theorem addr16ValueAt_value {arr : ℤ} (hsize : 1 ≤ size) (hreq : req ≤ size) :
    (addr16ValueAt arr req).value mem = addr16Value (Peek.block mem arr size) req := by
  have hfirst : (Peek.block mem arr size).getD 0 0 = mem arr := by
    simpa using Peek.block_getD mem 0 (show 0 < size by omega)
  unfold addr16ValueAt addr16Value
  by_cases hthree : req = 3
  · have hsecond : (Peek.block mem arr size).getD 1 0 = mem (arr + 1) :=
      Peek.block_getD mem 0 (by omega)
    have hthird : (Peek.block mem arr size).getD 2 0 = mem (arr + 2) :=
      Peek.block_getD mem 0 (by omega)
    simp only [hthree, if_true, Peek.value_bind, Peek.value_read, Peek.value_ite, Peek.value_pure,
      hfirst, hsecond, hthird]
  · by_cases htwo : req = 2
    · have hsecond : (Peek.block mem arr size).getD 1 0 = mem (arr + 1) :=
        Peek.block_getD mem 0 (by omega)
      simp only [if_neg hthree, if_pos htwo, Peek.value_bind, Peek.value_read, Peek.value_pure,
        hfirst, hsecond]
    · simp only [hthree, htwo, if_false, Peek.value_bind, Peek.value_read, Peek.value_pure, hfirst]

theorem addr16ValueAt_readsIn {arr : ℤ} (hsize : 1 ≤ size) (hreq : req ≤ size)
    (hP : ∀ k < size, P (arr + k)) : Peek.ReadsIn P (addr16ValueAt arr req) mem := by
  have hfirst : P arr := by simpa using hP 0 (by omega)
  unfold addr16ValueAt
  split
  · have hsecond : P (arr + 1) := by simpa using hP 1 (by omega)
    have hthird : P (arr + 2) := by simpa using hP 2 (by omega)
    simp only [Peek.readsIn_bind, Peek.readsIn_read, hsecond, true_and]
    split
    · exact Peek.readsIn_pure _
    · simp only [Peek.readsIn_bind, Peek.readsIn_read, Peek.readsIn_pure, hfirst, hsecond, hthird,
        and_self]
  · split
    · have hsecond : P (arr + 1) := by simpa using hP 1 (by omega)
      simp only [Peek.readsIn_bind, Peek.readsIn_read, Peek.readsIn_pure, hfirst, hsecond,
        and_self]
    · simp only [Peek.readsIn_bind, Peek.readsIn_read, Peek.readsIn_pure, hfirst, and_self]

theorem ubUnpack16ValueAt_value (arr : ℤ) (hsize : 1 ≤ size) :
    (ubUnpack16ValueAt arr size).value mem = ubUnpack16Value 0 (Peek.block mem arr size) := by
  have hne : Peek.block mem arr size ≠ [] := by
    rw [ne_eq, block_eq_nil_iff]
    omega
  have hfirst : (Peek.block mem arr size).getD 0 0 = mem arr := by
    simpa using Peek.block_getD mem 0 (show 0 < size by omega)
  unfold ubUnpack16ValueAt ubUnpack16Value
  rw [Peek.value_bind, scanReqAt_value]
  cases hscan : scanReq (Peek.block mem arr size) 1 with
  | error e => rfl
  | ok req =>
    have hreq := (scanReq_ok hne hscan).2
    rw [Peek.block_length] at hreq
    dsimp only
    rw [Peek.value_bind, addr16ValueAt_value hsize (by omega), hfirst]
    cases addr16Value (Peek.block mem arr size) req <;> rfl

theorem ubUnpack16ValueAt_readsIn (arr : ℤ) (hsize : 1 ≤ size) (hP : ∀ k < size, P (arr + k)) :
    Peek.ReadsIn P (ubUnpack16ValueAt arr size) mem := by
  have hne : Peek.block mem arr size ≠ [] := by
    rw [ne_eq, block_eq_nil_iff]
    omega
  have hfirst : P arr := by simpa using hP 0 (by omega)
  unfold ubUnpack16ValueAt
  rw [Peek.readsIn_bind, scanReqAt_value]
  refine ⟨scanReqAt_readsIn size arr 1 hP, ?_⟩
  cases hscan : scanReq (Peek.block mem arr size) 1 with
  | error e => exact Peek.readsIn_pure _
  | ok req =>
    have hreq := (scanReq_ok hne hscan).2
    rw [Peek.block_length] at hreq
    rw [Peek.readsIn_bind]
    refine ⟨addr16ValueAt_readsIn hsize (by omega) hP, ?_⟩
    cases (addr16ValueAt arr req).value mem with
    | error e => exact Peek.readsIn_pure _
    | ok value => simp only [Peek.readsIn_bind, Peek.readsIn_read, Peek.readsIn_pure, hfirst,
        and_self]

/-- An address that is read has one or two bytes. -/
theorem ubUnpack16Value_le_two (hne : arr ≠ []) : (ubUnpack16Value 0 arr).1 ≤ 2 := by
  rcases unpack_cases 0 hne with ⟨w, used, -, hused, hub, -⟩ | ⟨hneg, -⟩
  · rw [hub]
    omega
  · omega

end Address

/-! ## The packet -/

/-- The length that is passed to `crc8`. -/
theorem crcLength {n : ℕ} (hpos : 1 ≤ n) (hmax : n ≤ 256) :
    UInt8.ofInt ((n : ℤ) - 1) = UInt8.ofNat (n - 1) ∧ (UInt8.ofNat (n - 1)).toNat = n - 1 := by
  refine ⟨?_, UInt8.toNat_ofNat_of_lt' (show n - 1 < 256 by omega)⟩
  have hsame : (((n : ℤ) - 1) % 2 ^ 8).toNat = n - 1 := by omega
  rw [UInt8.ofInt, hsame]

/-- **A packet that is not empty is read inside of its bounds.** -/
theorem readReceived_readsIn_iff {receivedEp : ℕ} (hmax : receivedEp ≤ 256) (mem : ℤ → UInt8) :
    Peek.ReadsIn (InBounds receivedEp) (readReceived receivedEp) mem ↔ 1 ≤ receivedEp := by
  constructor
  · intro h
    unfold readReceived at h
    simp only [Peek.readsIn_bind, Peek.readsIn_read] at h
    have := h.2.1.1
    omega
  · intro hpos
    have hin : ∀ i : ℤ, 0 ≤ i → i < receivedEp → InBounds receivedEp i := fun i h h' => ⟨h, h'⟩
    unfold readReceived
    simp only [Peek.readsIn_bind, Peek.readsIn_read]
    refine ⟨?_, hin _ (by omega) (by omega), ?_⟩
    · unfold crc8At
      rw [(crcLength hpos hmax).1, (crcLength hpos hmax).2]
      simp only [Peek.readsIn_bind, Peek.readsIn_readBlock, Peek.readsIn_pure, and_true]
      intro k hk
      exact hin _ (by omega) (by omega)
    · split
      · exact Peek.readsIn_pure _
      split
      · exact Peek.readsIn_pure _
      have hto : ((ubUnpack16ValueAt 0 (receivedEp - 1)).value mem).1 ≤ 2 := by
        rw [ubUnpack16ValueAt_value 0 (by omega)]
        exact ubUnpack16Value_le_two (by rw [ne_eq, block_eq_nil_iff]; omega)
      simp only [Peek.readsIn_bind]
      refine ⟨ubUnpack16ValueAt_readsIn 0 (by omega) fun k hk => hin _ (by omega) (by omega), ?_⟩
      split
      · exact Peek.readsIn_pure _
      simp only [Peek.readsIn_bind]
      refine ⟨ubUnpack16ValueAt_readsIn _ (by omega) fun k hk => hin _ (by omega) (by omega), ?_⟩
      split
      · exact Peek.readsIn_pure _
      simp only [Peek.readsIn_bind, Peek.readsIn_readBlock, Peek.readsIn_pure, and_true]
      intro k hk
      exact hin _ (by omega) (by omega)

/-- With the packet in the buffer, the reads give what `decodeReceived` gives. -/
theorem readReceived_value (hne : data ≠ []) (hmax : data.length ≤ 256) (outside : ℤ → UInt8) :
    (readReceived data.length).value (arrayIn data outside) = decodeReceived data := by
  have hpos : 1 ≤ data.length := List.length_pos_of_ne_nil hne
  set mem := arrayIn data outside with hmem
  have hblock : ∀ base n : ℕ, base + n ≤ data.length →
      Peek.block mem base n = (data.drop base).take n := fun base n => block_arrayIn data outside
  have hbody : Peek.block mem 0 (data.length - 1) = data.take (data.length - 1) := by
    simpa using hblock 0 (data.length - 1) (by omega)
  have hcrc : (crc8At (UInt8.ofInt ((data.length : ℤ) - 1))).value mem =
      ubCrc8 data (UInt8.ofNat (data.length - 1)) := by
    unfold crc8At ubCrc8
    rw [(crcLength hpos hmax).1, (crcLength hpos hmax).2]
    simp only [Peek.value_bind, Peek.value_readBlock, Peek.value_pure, hbody]
  have hlast : mem ((data.length : ℤ) - 1) = data.getD (data.length - 1) 0 := by
    rw [show (data.length : ℤ) - 1 = ((data.length - 1 : ℕ) : ℤ) by omega, hmem,
      arrayIn_natCast (by omega), List.getD_eq_getElem _ _ (by omega)]
  unfold readReceived decodeReceived
  simp only [Peek.value_bind, Peek.value_read, hcrc, hlast, Peek.value_ite, Peek.value_pure]
  by_cases hgood : ubCrc8 data (UInt8.ofNat (data.length - 1)) ≠ data.getD (data.length - 1) 0
  · rw [if_pos hgood, if_pos hgood]
  by_cases hshort : data.length ≤ 3
  · rw [if_pos hshort, if_pos hshort]
  rw [if_neg hshort, if_neg hshort, ubUnpack16ValueAt_value 0 (by omega), hbody]
  have hto : (ubUnpack16Value 0 (data.take (data.length - 1))).1 ≤ 2 :=
    ubUnpack16Value_le_two (by rw [← List.length_pos_iff, List.length_take]; omega)
  generalize ubUnpack16Value 0 (data.take (data.length - 1)) = toField at hto ⊢
  by_cases htoPos : toField.1 < 1
  · rw [if_pos htoPos, if_pos htoPos]
  have hrest : Peek.block mem toField.1 (data.length - 1 - toField.1.toNat) =
      (data.take (data.length - 1)).drop toField.1.toNat := by
    rw [List.drop_take, ← hblock _ _ (by omega), Int.toNat_of_nonneg (by omega)]
  rw [ubUnpack16ValueAt_value _ (by omega), hrest]
  have hfrom : (ubUnpack16Value 0 ((data.take (data.length - 1)).drop toField.1.toNat)).1 ≤ 2 :=
    ubUnpack16Value_le_two (by
      rw [← List.length_pos_iff, List.length_drop, List.length_take]
      omega)
  generalize ubUnpack16Value 0 ((data.take (data.length - 1)).drop toField.1.toNat) = fromField
    at hfrom ⊢
  by_cases hfromPos : fromField.1 < 1
  · rw [if_pos hfromPos, if_pos hfromPos]
  simp only [copyPayload, Peek.value_readBlock, hblock _ _ (show
    toField.1.toNat + fromField.1.toNat +
      (data.length - (toField.1.toNat + fromField.1.toNat) - 1) % 256 ≤ data.length by omega)]

/-! ## The request in a packet -/

/-- The packet brings a request with this payload from a single device: it is two addresses of one
or two bytes, the payload and the checksum, and the device or a group is meant. -/
def Brings (busAddress : ℤ) (packet payload : Bytes) : Prop :=
  3 < packet.length ∧ ∃ toField fromField : Bytes, ∃ toAddress fromAddress : ℤ,
    (toField.length ≤ 2 ∧ Complete true toField toAddress) ∧
    (fromField.length ≤ 2 ∧ Complete true fromField fromAddress) ∧
    packet = PacketAssembler.appendCrc8 (toField ++ fromField ++ payload) ∧
    (toAddress < 1 ∨ busAddress = toAddress) ∧ 0 ≤ fromAddress

/-- An encoding is read by the device as well, with whatever follows it. -/
theorem Complete.ubUnpack {field : Bytes} {v : ℤ} (h : Complete true field v)
    (hlen : field.length ≤ 2) (post : Bytes) :
    1 ≤ field.length ∧ ∃ w : Int16, ubUnpack16Value 0 (field ++ post) = ((field.length : ℤ), w) ∧
      w.toInt = v := by
  obtain ⟨-, hfit, hfield⟩ := complete_iff.mp h
  refine ⟨hfit.1, ubUnpack16Value_short ?_ hlen⟩
  have hread := unpackValue_field hfit [] post
  rwa [List.nil_append, ← hfield] at hread

/-- What the device reads as an address is an encoding. -/
theorem complete_of_ubUnpack (hne : data ≠ []) (h : ¬ (ubUnpack16Value 0 data).1 < 1) :
    ∃ field post, data = field ++ post ∧ field.length ≤ 2 ∧
      (ubUnpack16Value 0 data).1 = field.length ∧
      Complete true field (ubUnpack16Value 0 data).2.toInt := by
  rcases unpack_cases 0 hne with ⟨w, used, -, hused, hub, hrust⟩ | ⟨hneg, -⟩
  · obtain ⟨hfit, post, hpost⟩ := unpackValue_field_ok hrust
    refine ⟨_, post, by rwa [List.drop_zero] at hpost, by rwa [packedBytes_length], ?_, ?_⟩
    · rw [hub, packedBytes_length]
    · rw [hub]
      refine complete_iff.mpr ⟨by simp, ?_, ?_⟩
      · rwa [packedBytes_length]
      · rw [packedBytes_length]
  · omega

/-- What has been checked when there is a request. -/
theorem decodeReceived_request {req : RpcRequest} (h : decodeReceived packet = .request req) :
    let body := packet.take (packet.length - 1)
    let toField := ubUnpack16Value 0 body
    let fromField := ubUnpack16Value 0 (body.drop toField.1.toNat)
    ubCrc8 packet (UInt8.ofNat (packet.length - 1)) = packet.getD (packet.length - 1) 0 ∧
      3 < packet.length ∧ ¬ toField.1 < 1 ∧ ¬ fromField.1 < 1 ∧
      req = copyPayload toField.2 fromField.2 packet (toField.1.toNat + fromField.1.toNat) := by
  intro body toField fromField
  unfold decodeReceived at h
  dsimp only at h
  split at h
  · simp at h
  rename_i hcrc
  split at h
  · simp at h
  split at h
  · simp at h
  rename_i hto
  split at h
  · simp at h
  rename_i hfrom
  exact ⟨by simpa using hcrc, by omega, hto, hfrom, (Decoded.request.inj h).symm⟩

/-- A packet with a good checksum. -/
theorem eq_appendCrc8 (hne : packet ≠ []) (hmax : packet.length ≤ 256)
    (hcrc : ubCrc8 packet (UInt8.ofNat (packet.length - 1)) = packet.getD (packet.length - 1) 0) :
    packet = PacketAssembler.appendCrc8 (packet.take (packet.length - 1)) := by
  have hpos := List.length_pos_of_ne_nil hne
  have hlast : packet.length - 1 < packet.length := by omega
  rw [ubCrc8_eq packet (by omega), List.getD_eq_getElem _ _ hlast] at hcrc
  rw [PacketAssembler.appendCrc8, hcrc]
  conv_lhs => rw [← List.take_append_drop (packet.length - 1) packet]
  rw [List.drop_eq_getElem_cons hlast, List.drop_of_length_le (by omega)]

/-- **The packets that bring a request.** -/
theorem brings_iff {busAddress : ℤ} {payload : Bytes} (hmax : packet.length ≤ 256) :
    (∃ req, decodeReceived packet = .request req ∧
      (req.toAddress < 1 ∨ busAddress = req.toAddress) ∧ 0 ≤ req.fromAddress ∧
      req.payload = payload) ↔ Brings busAddress packet payload := by
  constructor
  · rintro ⟨req, hreq, htarget, hsender, rfl⟩
    obtain ⟨hcrc, hlong, hto, hfrom, rfl⟩ := decodeReceived_request hreq
    set body := packet.take (packet.length - 1) with hbody
    have hlen : body.length = packet.length - 1 := by rw [hbody, List.length_take]; omega
    obtain ⟨toField, rest, hrest, htoLen, htoUsed, htoAddress⟩ :=
      complete_of_ubUnpack (List.ne_nil_of_length_pos (by omega)) hto
    have hdrop : body.drop (ubUnpack16Value 0 body).1.toNat = rest := by
      rw [htoUsed, Int.toNat_natCast, hrest, List.drop_left]
    rw [hdrop] at hfrom htarget hsender ⊢
    have hrestLen : body.length = toField.length + rest.length := by
      rw [hrest, List.length_append]
    obtain ⟨fromField, payload, hpayload, hfromLen, hfromUsed, hfromAddress⟩ :=
      complete_of_ubUnpack (List.ne_nil_of_length_pos (show 0 < rest.length by omega)) hfrom
    refine ⟨hlong, toField, fromField, _, _, ⟨htoLen, htoAddress⟩, ⟨hfromLen, hfromAddress⟩, ?_,
      htarget, hsender⟩
    have hbodyEq : body = toField ++ fromField ++ payload := by
      rw [hrest, hpayload, List.append_assoc]
    have hpacket := eq_appendCrc8 (List.ne_nil_of_length_pos (by omega)) hmax hcrc
    rw [← hbody, hbodyEq] at hpacket
    have hcopied := copyPayload_payload (ubUnpack16Value 0 body).2 (ubUnpack16Value 0 rest).2
      hpacket hmax
    rw [List.length_append] at hcopied
    rw [htoUsed, hfromUsed, Int.toNat_natCast, Int.toNat_natCast, hcopied]
    exact hpacket
  · rintro ⟨hlong, toField, fromField, toAddress, fromAddress, ⟨htoLen, hto⟩, ⟨hfromLen, hfrom⟩,
      rfl, htarget, hsender⟩
    obtain ⟨htoPos, w, hubTo, rfl⟩ := hto.ubUnpack htoLen (fromField ++ payload)
    obtain ⟨hfromPos, x, hubFrom, rfl⟩ := hfrom.ubUnpack hfromLen payload
    rw [← List.append_assoc] at hubTo
    obtain ⟨req, hreq, hreqTo, hreqFrom, hreqPayload⟩ :=
      decodeReceived_eq hubTo hubFrom htoPos hfromPos hlong hmax
    exact ⟨req, hreq, by rwa [hreqTo], by rwa [hreqFrom], hreqPayload⟩

end Uartbus.Analysis
