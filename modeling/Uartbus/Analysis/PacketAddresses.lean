import Uartbus.Analysis.RemoteCall
import Uartbus.Analysis.ShortestEncoding

/-!
# The addresses of a parsed packet

The two address fields of a packet have any length (`Fields`), a parsed packet has 32 bits for each
of them.  `ParsedUartBusPacket::new` puts `i32::MIN` and `i32::MAX` in the place of an address that
does not fit, so the packet is taken for one to or from the device that has that address.
-/

set_option autoImplicit false

namespace Uartbus.Analysis

open Lib Interface Model

variable {data payload : Bytes} {fromAddress toAddress : ℤ}

/-- `data` is the encodings of two addresses with a payload behind them. -/
def Fields (data : Bytes) (toAddress fromAddress : ℤ) (payload : Bytes) : Prop :=
  ∃ n m, Fits true n (packMagnitude toAddress) ∧ Fits true m (packMagnitude fromAddress) ∧
    data = packedBytes (decide (toAddress < 0)) n (packMagnitude toAddress) ++
      packedBytes (decide (fromAddress < 0)) m (packMagnitude fromAddress) ++ payload

/-- An address is read from where its encoding stands. -/
theorem unpackValue_field {v : ℤ} {n : ℕ} (hfit : Fits true n (packMagnitude v))
    (pre post : Bytes) :
    unpackValue true (pre ++ packedBytes (decide (v < 0)) n (packMagnitude v) ++ post) pre.length =
      .ok (v, n) := by
  rw [unpackValue_packedBytes hfit (fun _ => rfl), signedValue_packMagnitude]

/-- A read address has its encoding there. -/
theorem unpackValue_field_ok {start used : ℕ} {v : ℤ}
    (h : unpackValue true data start = .ok (v, used)) :
    Fits true used (packMagnitude v) ∧
      ∃ post, data.drop start = packedBytes (decide (v < 0)) used (packMagnitude v) ++ post := by
  obtain ⟨sign, m, -, hfit, hv, hpost⟩ := unpackValue_eq_ok h
  obtain ⟨rfl, rfl⟩ := signedValue_eq hv
  exact ⟨hfit, hpost⟩

/-- The two reads of `ParsedUartBusPacket::new` succeed on the packets of the format only. -/
theorem fields_iff :
    Fields data toAddress fromAddress payload ↔ ∃ n m,
      unpackValue true data 0 = .ok (toAddress, n) ∧
        unpackValue true data n = .ok (fromAddress, m) ∧ payload = data.drop (n + m) := by
  constructor
  · rintro ⟨n, m, hto, hfrom, rfl⟩
    refine ⟨n, m, ?_, ?_, ?_⟩
    · rw [List.append_assoc]
      exact unpackValue_field hto [] _
    · have hread := unpackValue_field hfrom
        (packedBytes (decide (toAddress < 0)) n (packMagnitude toAddress)) payload
      rwa [packedBytes_length] at hread
    · rw [List.drop_left' (by simp)]
  · rintro ⟨n, m, hto, hfrom, rfl⟩
    obtain ⟨hfitTo, rest, hrest⟩ := unpackValue_field_ok hto
    obtain ⟨hfitFrom, payload, hpayload⟩ := unpackValue_field_ok hfrom
    refine ⟨n, m, hfitTo, hfitFrom, ?_⟩
    rw [List.drop_zero] at hrest
    have hbehind : rest = data.drop n := by rw [hrest, List.drop_left' (packedBytes_length ..)]
    rw [← List.drop_drop, hpayload, List.drop_left' (packedBytes_length ..), List.append_assoc,
      ← hpayload, ← hbehind]
    exact hrest

/-- What `ParsedUartBusPacket::new` makes of the packets of the format; it fails on all others. -/
theorem parse_ok_iff {p : ParsedUartBusPacket} :
    ParsedUartBusPacket.new data = .ok p ↔ ∃ toAddress fromAddress payload,
      Fields data toAddress fromAddress payload ∧
        p = ⟨data, ParsedUartBusPacket.toI32 fromAddress (2 ^ 31 - 1),
          ParsedUartBusPacket.toI32 toAddress (-2 ^ 31), payload⟩ := by
  constructor
  · intro h
    unfold ParsedUartBusPacket.new at h
    cases hto : unpackValue true data 0 with
    | error err => simp [hto, bind, Except.bind] at h
    | ok first =>
      cases hfrom : unpackValue true data first.2 with
      | error err => simp [hto, hfrom, bind, Except.bind] at h
      | ok second =>
        simp only [hto, hfrom, bind, Except.bind, pure, Except.pure, Except.ok.injEq] at h
        exact ⟨first.1, second.1, _, fields_iff.mpr ⟨first.2, second.2, hto, hfrom, rfl⟩, h.symm⟩
  · rintro ⟨toAddress, fromAddress, payload, hfields, rfl⟩
    obtain ⟨n, m, hto, hfrom, rfl⟩ := fields_iff.mp hfields
    unfold ParsedUartBusPacket.new
    rw [hto]
    change (unpackValue true data n >>= _) = _
    rw [hfrom]
    rfl

/-- The parsed addresses of `data` are those that stand in it, and where one of those is no `i32`
there is an error. -/
structure ReportsAddresses (data : Bytes) : Prop where
  contained : ∀ p, ParsedUartBusPacket.new data = .ok p → ∃ n m,
    unpackValue true data 0 = .ok (p.toAddress, n) ∧
      unpackValue true data n = .ok (p.fromAddress, m) ∧ p.payload = data.drop (n + m)
  refused : ∀ toAddress fromAddress n m, unpackValue true data 0 = .ok (toAddress, n) →
    unpackValue true data n = .ok (fromAddress, m) → ¬ (I32 toAddress ∧ I32 fromAddress) →
      ∃ err, ParsedUartBusPacket.new data = .error err

theorem ReportsAddresses.i32 (h : ReportsAddresses data)
    (hfields : Fields data toAddress fromAddress payload) : I32 toAddress ∧ I32 fromAddress := by
  obtain ⟨n, m, hto, hfrom, -⟩ := fields_iff.mp hfields
  by_contra hrange
  obtain ⟨err, herr⟩ := h.refused toAddress fromAddress n m hto hfrom hrange
  have hok := parse_ok_iff.mpr ⟨toAddress, fromAddress, payload, hfields, rfl⟩
  simp [herr] at hok

/-- **Addresses that are parsed.**  A parsed packet has the addresses that stand in it exactly when
both of them are values of an `i32`.
SOURCE: packet.rs:253-280, tools.rs:284-315, rpc/bus.rs:42-67 -/
theorem reportsAddresses_iff (data : List UInt8) :
    ReportsAddresses data ↔ ∀ toAddress fromAddress payload,
      Fields data toAddress fromAddress payload → I32 toAddress ∧ I32 fromAddress := by
  constructor
  · intro h toAddress fromAddress payload hfields
    exact h.i32 hfields
  · intro h
    refine ⟨fun p hp => ?_, fun toAddress fromAddress n m hto hfrom hrange => ?_⟩
    · obtain ⟨toAddress, fromAddress, payload, hfields, rfl⟩ := parse_ok_iff.mp hp
      obtain ⟨hto, hfrom⟩ := h _ _ _ hfields
      rw [toI32_of_range _ hto, toI32_of_range _ hfrom]
      exact fields_iff.mp hfields
    · exact absurd (h _ _ _ (fields_iff.mpr ⟨n, m, hto, hfrom, rfl⟩)) hrange

/-- A packet from the device 2 ^ 31 to the device 1 is reported as one from the device
2 ^ 31 - 1, and in the other direction as one to the group -2 ^ 31. -/
theorem parsed_address_replaced :
    (¬ ReportsAddresses [0x01, 0x88, 0x80, 0x80, 0x80, 0x00] ∧
      (ParsedUartBusPacket.new [0x01, 0x88, 0x80, 0x80, 0x80, 0x00]).toOption.map
        ParsedUartBusPacket.packet = some ⟨1, 2 ^ 31 - 1, []⟩) ∧
    (¬ ReportsAddresses [0x88, 0x80, 0x80, 0x80, 0x00, 0x01] ∧
      (ParsedUartBusPacket.new [0x88, 0x80, 0x80, 0x80, 0x00, 0x01]).toOption.map
        ParsedUartBusPacket.packet = some ⟨-2 ^ 31, 1, []⟩) := by
  refine ⟨⟨fun h => ?_, by decide +kernel⟩, ⟨fun h => ?_, by decide +kernel⟩⟩
  · have hfields : Fields [0x01, 0x88, 0x80, 0x80, 0x80, 0x00] 1 (2 ^ 31) [] :=
      fields_iff.mpr ⟨1, 5, by decide +kernel, by decide +kernel, rfl⟩
    exact absurd (h.i32 hfields).2 (by unfold I32; omega)
  · have hfields : Fields [0x88, 0x80, 0x80, 0x80, 0x00, 0x01] (2 ^ 31) 1 [] :=
      fields_iff.mpr ⟨5, 1, by decide +kernel, by decide +kernel, rfl⟩
    exact absurd (h.i32 hfields).1 (by unfold I32; omega)

end Uartbus.Analysis
