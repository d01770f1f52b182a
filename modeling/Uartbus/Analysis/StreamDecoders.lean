import Uartbus.Analysis.Framing
import Uartbus.Analysis.HostPackets
import Uartbus.Model.Gateway

/-!
# The stream decoders of the microcontrollers

The decoder of the Arduino gateway and the one of the direct host are machines that take frames
out of a stream with a buffer of `MAX_PACKET_SIZE` bytes (`boundedMachine`).  A full buffer is
emptied before the next byte is looked at, also when that byte belongs to the end of the packet:
a packet that fills the buffer is lost, and an empty one comes in its place.

The gateway hands each packet on with its size in a byte.  The direct host keeps a packet in the
buffer when it cannot read an address of it, and the next packet is added to it.  Nothing else
goes wrong (`decoders_accept_iff`).
-/

set_option autoImplicit false

namespace Uartbus.Analysis

open Lib Model

variable {buffer data packet : Bytes} {packets : List Bytes} {g : ArduinoGateway}
  {max : ℕ}

/-! ## A buffer of bounded size -/

theorem packetEscape_stays : decide (packetEscape = ~~~packetEscape) = false :=
  decide_eq_false (complement_ne packetEscape).symm

/-- A decoder with a buffer of `max` bytes; `cut` is what it does with a packet. -/
def boundedMachine (max : ℕ) (cut : Bytes → Bytes × Bytes) :
    Unstuffer UInt8 Bytes Bytes where
  esc := packetEscape
  ends b := decide (b = ~~~packetEscape)
  prepare buffer := if buffer.length ≥ max then [] else buffer
  store buffer b := buffer ++ [b]
  cut := cut
  esc_stays := packetEscape_stays
  prepare_prepare buffer := by by_cases h : buffer.length ≥ max <;> simp [h]

section Bounded

variable {max : ℕ} {cut : Bytes → Bytes × Bytes}

theorem bounded_ends : (boundedMachine max cut).ends (~~~packetEscape) = true := by
  simp [boundedMachine]

theorem bounded_prepare_of_lt (h : buffer.length < max) :
    (boundedMachine max cut).prepare buffer = buffer := if_neg (Nat.not_le.mpr h)

theorem bounded_prepare_of_le (h : max ≤ buffer.length) :
    (boundedMachine max cut).prepare buffer = [] := if_pos h

/-- Bytes that fit are added. -/
theorem bounded_fill_of_le (h : buffer.length + data.length ≤ max) :
    (boundedMachine max cut).fill buffer data = buffer ++ data := by
  induction data generalizing buffer with
  | nil => simp
  | cons b data ih =>
    rw [List.length_cons] at h
    rw [Unstuffer.fill_cons, bounded_prepare_of_lt (by omega)]
    have hstore : (boundedMachine max cut).store buffer b = buffer ++ [b] := rfl
    rw [hstore, ih (by simp only [List.length_append, List.length_singleton]; omega),
      List.append_assoc, List.singleton_append]

/-- Bytes that do not fit push out what was there, together with those that did fit. -/
theorem bounded_fill_of_lt (hbuffer : buffer.length ≤ max) (hdata : data.length ≤ max)
    (h : max < buffer.length + data.length) :
    (boundedMachine max cut).fill buffer data = data.drop (max - buffer.length) := by
  set k := max - buffer.length with hk
  have hfirst : (boundedMachine max cut).fill buffer (data.take k) = buffer ++ data.take k :=
    bounded_fill_of_le (by rw [List.length_take]; omega)
  have hfull : max ≤ (buffer ++ data.take k).length := by
    rw [List.length_append, List.length_take]
    omega
  obtain ⟨b, rest, hrest⟩ := List.exists_cons_of_ne_nil
    (show data.drop k ≠ [] by rw [← List.length_pos_iff, List.length_drop]; omega)
  have hfit : (b :: rest).length ≤ max := by
    rw [← hrest, List.length_drop]
    omega
  -- behind a full buffer the machine goes on as from an empty one
  have hrestart : (boundedMachine max cut).fill (buffer ++ data.take k) (b :: rest) =
      (boundedMachine max cut).fill [] (b :: rest) := by
    rw [Unstuffer.fill_cons, Unstuffer.fill_cons, bounded_prepare_of_le hfull,
      bounded_prepare_of_lt (by rw [List.length_nil]; omega)]
  calc (boundedMachine max cut).fill buffer data
      = (boundedMachine max cut).fill buffer (data.take k ++ data.drop k) := by
        rw [List.take_append_drop]
    _ = (boundedMachine max cut).fill [] (b :: rest) := by
        rw [Unstuffer.fill_append, hfirst, hrest, hrestart]
    _ = data.drop k := by
        rw [bounded_fill_of_le (by rw [List.length_nil]; omega), List.nil_append, hrest]

/-- A packet that comes into the empty buffer. -/
theorem bounded_take_nil (h : packet.length ≤ max) :
    (boundedMachine max cut).take [] packet =
      cut (if packet.length < max then packet else []) := by
  unfold Unstuffer.take
  rw [bounded_fill_of_le (by rw [List.length_nil]; omega), List.nil_append]
  by_cases hlt : packet.length < max
  · rw [bounded_prepare_of_lt hlt, if_pos hlt]
    rfl
  · rw [bounded_prepare_of_le (Nat.not_lt.mp hlt), if_neg hlt]
    rfl

/-- A packet that comes behind another one is not found as it is. -/
theorem bounded_take_behind (hne : buffer ≠ []) (hbuffer : buffer.length < max) (hpos : packet ≠ [])
    (hpacket : packet.length ≤ max) :
    (boundedMachine max cut).prepare ((boundedMachine max cut).fill buffer packet) ≠ packet := by
  rw [← List.length_pos_iff] at hne hpos
  intro heq
  have hlength := congrArg List.length heq
  rcases Nat.lt_or_ge max (buffer.length + packet.length) with hover | hfit
  · rw [bounded_fill_of_lt hbuffer.le hpacket hover, bounded_prepare_of_lt
      (by rw [List.length_drop]; omega), List.length_drop] at hlength
    omega
  · rw [bounded_fill_of_le hfit] at hlength
    rcases Nat.lt_or_ge (buffer ++ packet).length max with hlt | hge
    · rw [bounded_prepare_of_lt hlt, List.length_append] at hlength
      omega
    · rw [bounded_prepare_of_le hge, List.length_nil] at hlength
      omega

end Bounded

/-! ## The gateway -/

/-- The machine of `manage_data_from_pc`. -/
def gatewayMachine (max : ℕ) : Unstuffer UInt8 Bytes Bytes :=
  boundedMachine max fun decode => ([], PcDecoder.enqueuedContent decode)

theorem decodeByte_eq (max : ℕ) (s : Bool × Bytes) (b : UInt8) :
    PcDecoder.decodeByte max s b = (gatewayMachine max).step s b := by
  unfold PcDecoder.decodeByte Unstuffer.step gatewayMachine boundedMachine
  simp only [decide_eq_true_eq]

/-- The packets `queue_enqueue_content` is called for over a stream of frames. -/
theorem decodeBytes_frames (hmax : ∀ p ∈ packets, p.length ≤ max) :
    (transduce (PcDecoder.decodeByte max) (false, []) (packets.flatMap (frameBytes · 0xff))).2 =
      packets.map fun p => PcDecoder.enqueuedContent (if p.length < max then p else []) := by
  have hstep : PcDecoder.decodeByte max = (gatewayMachine max).step := by
    funext s b
    exact decodeByte_eq max s b
  have hframes := (gatewayMachine max).feed_frames bounded_ends [] packets
  have hstream : packets.flatMap (frameBytes · 0xff) =
      packets.flatMap (frame (gatewayMachine max).esc (~~~packetEscape)) := rfl
  rw [hstep, hstream]
  refine (congrArg Prod.snd hframes).trans ?_
  clear hframes hstream
  induction packets with
  | nil => rfl
  | cons p packets ih =>
    have htake : (gatewayMachine max).take [] p =
        ([], PcDecoder.enqueuedContent (if p.length < max then p else [])) :=
      bounded_take_nil (hmax p List.mem_cons_self)
    rw [transduce_cons, htake, ih fun q hq => hmax q (List.mem_cons_of_mem p hq)]
    rfl

/-- What the gateway has decoded is what its machine makes of the bytes it has taken. -/
structure Consumed (max : ℕ) (g : ArduinoGateway) (taken : Bytes) : Prop where
  split : g.arrived = taken ++ g.decoder.serial
  decoded : transduce (PcDecoder.decodeByte max) (false, []) taken =
    ((g.decoder.mayCut, g.decoder.decode), g.enqueued)

theorem consumed_step {g' : ArduinoGateway} {a : ArduinoAction} (h : ∃ taken, Consumed max g taken)
    (hstep : arduinoStep max g a = some g') : ∃ taken, Consumed max g' taken := by
  obtain ⟨taken, h⟩ := h
  cases a with
  | arrive bytes =>
    cases hstep
    exact ⟨taken, by simp [h.split], h.decoded⟩
  | manage =>
    cases hstep
    refine ⟨taken ++ g.decoder.serial.take 19, ?_, ?_⟩
    · simp only [PcDecoder.manageDataFromPc]
      rw [List.append_assoc, List.take_append_drop]
      exact h.split
    · rw [transduce_append, h.decoded]
      rfl

/-- What a gateway that has taken everything has called `queue_enqueue_content` for. -/
theorem enqueued_eq {acts : List ArduinoAction}
    (hrun : run (arduinoStep max) ArduinoGateway.initial acts = some g)
    (hserial : g.decoder.serial = []) :
    g.enqueued = (transduce (PcDecoder.decodeByte max) (false, []) g.arrived).2 := by
  obtain ⟨taken, h⟩ : ∃ taken, Consumed max g taken :=
    run_invariant_all (fun _ _ _ hI hstep => consumed_step hI hstep) ⟨[], rfl, rfl⟩ hrun
  rw [h.split, hserial, List.append_nil, h.decoded]

theorem enqueuedContent_eq_iff {p : Bytes} (hpos : 1 ≤ p.length) :
    PcDecoder.enqueuedContent (if p.length < max then p else []) = p ↔
      p.length < max ∧ p.length < 256 := by
  unfold PcDecoder.enqueuedContent
  by_cases hlt : p.length < max
  · rw [if_pos hlt, List.take_eq_self_iff]
    omega
  · rw [if_neg hlt]
    refine iff_of_false (fun h => ?_) (fun h => hlt h.1)
    rw [← h] at hpos
    exact absurd hpos (by decide)

/-! ## The direct host -/

/-- The machine of the direct host, with each packet dispatched before the next byte. -/
def directMachine (build : HostBuild) : Unstuffer UInt8 Bytes Bytes :=
  boundedMachine build.maxPacketSize fun data => (if HoldsBuffer data then data else [], data)

/-- The host between two bytes as a state of the machine. -/
def directOf (s : Bool × Bytes) : HostReceive :=
  { received := false, receivedData := s.2, mayCut := s.1 }

/-- A received packet stays in the buffer exactly when an address of it cannot be read. -/
theorem tryDispatch_buffer (build : HostBuild) (hsize : data.length ≤ 256) :
    (HostReceive.tryDispatchReceivedPacket build
        { received := true, receivedData := data, mayCut := false }).1 =
      directOf (false, if HoldsBuffer data then data else []) := by
  have hiff := decodeReceived_badAddress_iff hsize
  unfold HostReceive.tryDispatchReceivedPacket
  simp only [if_true]
  cases hdec : decodeReceived data with
  | badAddress => rw [if_pos (hiff.mp hdec)]; rfl
  | badChecksum | short | request req =>
    rw [if_neg (fun h => by rw [hiff.mpr h] at hdec; cases hdec)]
    rfl

/-- A byte on the direct wire is a step of the machine. -/
theorem serveByte_directOf (build : HostBuild) (s : Bool × Bytes) (b : UInt8) :
    (directOf s).serveByte build b =
      (directOf ((directMachine build).step s b).1, ((directMachine build).step s b).2) := by
  obtain ⟨mayCut, data⟩ := s
  have hbyte : ¬ b.toUInt16.toNat > 255 := by
    have := b.toNat_lt
    rw [UInt8.toNat_toUInt16]
    omega
  have hback : b.toUInt16.toUInt8 = b := by simp
  set prepared := if data.length ≥ build.maxPacketSize then [] else data with hprepared
  have hsize : prepared.length ≤ 256 := by
    have := build.max_lt
    rw [hprepared]
    split
    · simp
    · omega
  have hrec : (directOf (mayCut, data)).ubOutRecByte build b.toUInt16 =
      if mayCut then
        if b = ~~~packetEscape then { received := true, receivedData := prepared, mayCut := false }
        else directOf (false, prepared ++ [b])
      else if b = packetEscape then directOf (true, prepared)
      else directOf (false, prepared ++ [b]) := by
    unfold HostReceive.ubOutRecByte
    rw [if_neg hbyte, hback]
    by_cases hfull : data.length ≥ build.maxPacketSize <;>
      cases mayCut <;> simp [directOf, hprepared, hfull]
  have hquiet : ∀ t, (directOf t).tryDispatchReceivedPacket build = (directOf t, none) :=
    fun t => rfl
  unfold HostReceive.serveByte Unstuffer.step
  simp only [hrec]
  cases mayCut with
  | true =>
    by_cases hend : b = ~~~packetEscape
    · simp only [if_true, if_pos hend, tryDispatch_buffer build hsize]
      simp [directMachine, boundedMachine, hend, ← hprepared]
    · simp only [if_true, if_neg hend, hquiet]
      simp [directMachine, boundedMachine, hend, ← hprepared, directOf]
  | false =>
    by_cases hesc : b = packetEscape
    · simp only [Bool.false_eq_true, if_false, if_pos hesc, hquiet]
      simp [directMachine, boundedMachine, hesc, ← hprepared, directOf]
    · simp only [Bool.false_eq_true, if_false, if_neg hesc, hquiet]
      simp [directMachine, boundedMachine, hesc, ← hprepared, directOf]

/-- The packets the direct host finds, one machine step a packet. -/
theorem serveBytes_frames (build : HostBuild) (packets : List Bytes) :
    (transduce (HostReceive.serveByte build) HostReceive.initial
        (packets.flatMap (frameBytes · 0xff))).2 =
      (transduce (fun s p => (((directMachine build).take s p).1,
        [((directMachine build).take s p).2])) [] packets).2 := by
  have hfollow := transduce_follows directOf (serveByte_directOf build) (false, [])
    (packets.flatMap (frameBytes · 0xff))
  have hframes := (directMachine build).feed_frames bounded_ends [] packets
  refine (congrArg Prod.snd hfollow).trans ?_
  exact congrArg Prod.snd hframes

/-- The packets are found as they are when each one fits and leaves an empty buffer behind. -/
theorem direct_packets_iff (build : HostBuild)
    (hlen : ∀ p ∈ packets, 1 ≤ p.length ∧ p.length ≤ build.maxPacketSize) :
    (transduce (fun s p => (((directMachine build).take s p).1,
        [((directMachine build).take s p).2])) [] packets).2 = packets ↔
      (∀ p ∈ packets, p.length < build.maxPacketSize) ∧
        ∀ p ∈ packets.dropLast, ¬ HoldsBuffer p := by
  induction packets with
  | nil => simp
  | cons p packets ih =>
    obtain ⟨hpos, hmax⟩ := hlen p List.mem_cons_self
    have hlen' : ∀ q ∈ packets, 1 ≤ q.length ∧ q.length ≤ build.maxPacketSize :=
      fun q hq => hlen q (List.mem_cons_of_mem p hq)
    have htake : (directMachine build).take [] p = _ := bounded_take_nil hmax
    rw [transduce_cons, htake, List.singleton_append, List.cons.injEq]
    by_cases hlt : p.length < build.maxPacketSize
    · simp only [hlt, if_true, true_and, List.forall_mem_cons]
      by_cases hholds : HoldsBuffer p
      · rw [if_pos hholds]
        cases packets with
        | nil => simp
        | cons q packets =>
          -- the next packet comes behind the one that is kept
          obtain ⟨hqpos, hqmax⟩ := hlen' q List.mem_cons_self
          refine iff_of_false (fun h => ?_) (fun h => ?_)
          · rw [transduce_cons, List.singleton_append, List.cons.injEq] at h
            exact bounded_take_behind (List.length_pos_iff.mp hpos) hlt
              (List.length_pos_iff.mp hqpos) hqmax h.1
          · exact h.2 p (by simp) hholds
      · rw [if_neg hholds, ih hlen']
        cases packets with
        | nil => simp
        | cons q packets => simp [hholds]
    · refine iff_of_false (fun h => ?_) (fun h => hlt (h.1 p List.mem_cons_self))
      rw [if_neg hlt] at h
      rw [← h.1] at hpos
      exact absurd hpos (by decide)

/-! ## Both decoders -/

/-- **Legal packets.**  Over a stream of frames of packets that have from 1 to
`MAX_PACKET_SIZE` bytes: the gateway, whenever it has taken all of them, has called
`queue_enqueue_content` for exactly those packets iff each has less than `MAX_PACKET_SIZE` bytes and
its size is a byte; the direct host finds exactly those packets iff each has less than
`MAX_PACKET_SIZE` bytes and none but the last has a good checksum and an address that cannot be
read.
SOURCE: uartbus_connector.cpp:227-268, direct.c:78-122 -/
theorem decoders_accept_iff (max : ℕ) (build : HostBuild) (packets : List (List UInt8)) :
    ((∀ p ∈ packets, 1 ≤ p.length ∧ p.length ≤ max) →
      ∀ (acts : List ArduinoAction) (g : ArduinoGateway),
        run (arduinoStep max) ArduinoGateway.initial acts = some g →
        g.arrived = packets.flatMap (frameBytes · 0xff) → g.decoder.serial = [] →
        (g.enqueued = packets ↔ ∀ p ∈ packets, p.length < max ∧ p.length < 256)) ∧
    ((∀ p ∈ packets, 1 ≤ p.length ∧ p.length ≤ build.maxPacketSize) →
      ((transduce (HostReceive.serveByte build) HostReceive.initial
          (packets.flatMap (frameBytes · 0xff))).2 = packets ↔
        (∀ p ∈ packets, p.length < build.maxPacketSize) ∧
          ∀ p ∈ packets.dropLast, ¬ HoldsBuffer p)) := by
  constructor
  · intro hlen acts g hrun harrived hserial
    rw [enqueued_eq hrun hserial, harrived, decodeBytes_frames fun p hp => (hlen p hp).2]
    constructor
    · intro h p hp
      have hmap := List.map_eq_map_iff.mp (h.trans (List.map_id packets).symm)
      exact (enqueuedContent_eq_iff (hlen p hp).1).mp (hmap p hp)
    · intro h
      refine (List.map_congr_left fun p hp => ?_).trans (List.map_id packets)
      exact (enqueuedContent_eq_iff (hlen p hp).1).mpr (h p hp)
  · intro hlen
    rw [serveBytes_frames]
    exact direct_packets_iff build hlen

/-- With room for four bytes, a packet of four bytes comes out empty on both sides; with room
for sixteen, the direct host adds the packet 7 to one whose addresses it cannot read. -/
theorem decoders_lose_packets :
    (∃ g, run (arduinoStep 4) ArduinoGateway.initial
        [.arrive (frameBytes [1, 2, 3, 4] 0xff), .manage] = some g ∧
      g.arrived = frameBytes [1, 2, 3, 4] 0xff ∧ g.decoder.serial = [] ∧ g.enqueued = [[]]) ∧
    (transduce (HostReceive.serveByte ⟨4, 12, by decide⟩) HostReceive.initial
      (frameBytes [1, 2, 3, 4] 0xff)).2 = [[]] ∧
    (transduce (HostReceive.serveByte ⟨16, 12, by decide⟩) HostReceive.initial
      (frameBytes [0x80, 0x80, 0x80, 0xc1] 0xff ++ frameBytes [7] 0xff)).2 =
        [[0x80, 0x80, 0x80, 0xc1], [0x80, 0x80, 0x80, 0xc1, 7]] := by
  refine ⟨⟨_, rfl, ?_⟩, ?_, ?_⟩ <;> decide +kernel

end Uartbus.Analysis
