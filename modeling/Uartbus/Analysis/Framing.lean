import Mathlib.Data.List.DropRight
import Mathlib.Algebra.Group.Nat.Even
import Uartbus.Lib.Stuffing
import Uartbus.Model.Framing

/-!
# Cutting packets out of a stream

`FramedPacketCutter` is a machine that takes frames out of a stream (`cutterMachine`), so it
gives back the packets of any stream of frames, however the stream is cut into reads
(`feedBytes_frames`).

`clear` drops the bytes of the unfinished packet and keeps the undecided escape byte.  A stream
that breaks behind an escape byte therefore spoils the next one, unless that one has no other
bytes than escape bytes (`clear_starts_clean_iff`).
-/

set_option autoImplicit false

namespace Uartbus.Analysis

open Lib Model

variable {t : Bytes}

theorem complement_ne (b : UInt8) : ~~~b ≠ b := by
  intro h
  have hbits := congrArg UInt8.toBitVec h
  have hzero := congrArg (fun v => v.getLsbD 0) hbits
  simp at hzero

/-- The machine of `FramedPacketCutter`: it ends a frame at any byte but the escape byte. -/
def cutterMachine (escape : UInt8) : Unstuffer UInt8 Bytes Bytes :=
  Unstuffer.collector escape (fun b => decide (b ≠ escape)) (by simp)

/-- A cutter as a state of the machine. -/
def cutterOf (escape : UInt8) (s : Bool × Bytes) : FramedPacketCutter :=
  { escape := escape, mayCut := s.1, packet := s.2 }

theorem feedByte_cutterOf (escape : UInt8) (s : Bool × Bytes) (b : UInt8) :
    (cutterOf escape s).feedByte b =
      (cutterOf escape ((cutterMachine escape).step s b).1,
        ((cutterMachine escape).step s b).2) := by
  obtain ⟨mayCut, packet⟩ := s
  by_cases hb : b = escape <;> cases mayCut <;>
    simp [FramedPacketCutter.feedByte, Unstuffer.step, cutterOf, cutterMachine,
      Unstuffer.collector, hb]

theorem feedBytes_cutterOf (escape : UInt8) (s : Bool × Bytes) (bytes : Bytes) :
    (cutterOf escape s).feedBytes bytes =
      (cutterOf escape ((cutterMachine escape).feed s bytes).1,
        ((cutterMachine escape).feed s bytes).2) :=
  transduce_follows (cutterOf escape) (feedByte_cutterOf escape) s bytes

/-- The bytes of a packet without its end are collected. -/
theorem feedBytes_stuff (escape : UInt8) (packet data : Bytes) :
    (cutterOf escape (false, packet)).feedBytes (stuff escape data) =
      (cutterOf escape (false, packet ++ data), []) := by
  rw [feedBytes_cutterOf]
  exact congrArg (fun r => (cutterOf escape r.1, r.2)) (Unstuffer.collector_feed_stuff packet data)

theorem complement_ends (escape : UInt8) : (cutterMachine escape).ends (~~~escape) = true :=
  decide_eq_true (complement_ne escape)

/-- The end of a packet gives what was collected. -/
theorem feedBytes_end (escape : UInt8) (packet : Bytes) :
    (cutterOf escape (false, packet)).feedBytes [escape, ~~~escape] =
      (cutterOf escape (false, []), [packet]) := by
  rw [feedBytes_cutterOf]
  exact congrArg (fun r => (cutterOf escape r.1, r.2))
    (Unstuffer.collector_feed_end (complement_ends escape) packet)

/-- The packets of a stream of frames. -/
theorem feedBytes_frames (escape : UInt8) (packets : List Bytes) :
    (FramedPacketCutter.new escape).feedBytes (packets.flatMap (frameBytes · escape)) =
      (FramedPacketCutter.new escape, packets) := by
  have hnew : FramedPacketCutter.new escape = cutterOf escape (false, []) := rfl
  rw [hnew, feedBytes_cutterOf]
  exact congrArg (fun r => (cutterOf escape r.1, r.2))
    (Unstuffer.collector_feed_frames (complement_ends escape) packets)

/-- **Round trip.**  Whatever pieces the stream of frames comes in, the cutter gives the packets
in order and is as it was at the start.
SOURCE: framing.rs:6-59, 97-112; apps/log_file.rs:63-78 -/
theorem cutter_gives_packets (escape : UInt8) (packets pieces : List (List UInt8))
    (hpieces : pieces.flatten = packets.flatMap (frameBytes · escape)) :
    transduce FramedPacketCutter.feedBytes (FramedPacketCutter.new escape) pieces =
      (FramedPacketCutter.new escape, packets) := by
  have hflat : transduce FramedPacketCutter.feedBytes (FramedPacketCutter.new escape) pieces =
      (FramedPacketCutter.new escape).feedBytes pieces.flatten :=
    transduce_flatten (FramedPacketCutter.new escape) pieces
  rw [hflat, hpieces, feedBytes_frames]

/-- A packet of two escape bytes, an empty one and a plain one, in pieces that part the escape
bytes. -/
theorem cutter_gives_packets_parted :
    transduce FramedPacketCutter.feedBytes (FramedPacketCutter.new 0xff)
        [[0xff], [0xff, 0xff], [0xff, 0xff], [], [0x00, 0xff, 0x00, 7], [0xff], [0x00]] =
      (FramedPacketCutter.new 0xff, [[0xff, 0xff], [], [7]]) :=
  cutter_gives_packets 0xff [[0xff, 0xff], [], [7]] _ (by decide)

/-! ## A stream that breaks -/

section Broken

variable {escape : UInt8}

/-- The flag after a byte. -/
theorem feedByte_mayCut (cutter : FramedPacketCutter) (b : UInt8) :
    (cutter.feedByte b).1.mayCut = (decide (b = cutter.escape) && !cutter.mayCut) ∧
      (cutter.feedByte b).1.escape = cutter.escape := by
  unfold FramedPacketCutter.feedByte
  cases hm : cutter.mayCut <;> by_cases hb : b = cutter.escape <;> simp [hb]

/-- An escape byte is undecided after an odd number of them at the end. -/
theorem feedBytes_mayCut (s : Bytes) :
    ((FramedPacketCutter.new escape).feedBytes s).1.escape = escape ∧
      (((FramedPacketCutter.new escape).feedBytes s).1.mayCut = false ↔
        Even (s.rtakeWhile (· = escape)).length) := by
  induction s using List.reverseRecOn with
  | nil => exact ⟨rfl, by simp [FramedPacketCutter.feedBytes, FramedPacketCutter.new]⟩
  | append_singleton s b ih =>
    obtain ⟨hescape, heven⟩ := ih
    have hstep := feedByte_mayCut ((FramedPacketCutter.new escape).feedBytes s).1 b
    unfold FramedPacketCutter.feedBytes at *
    rw [transduce_append, transduce_singleton]
    rw [hescape] at hstep
    refine ⟨hstep.2, ?_⟩
    simp only [hstep.1]
    by_cases hb : b = escape
    · rw [List.rtakeWhile_concat_pos _ _ _ (by simpa using hb), List.length_append,
        List.length_singleton, Nat.even_add_one, ← heven]
      simp [hb]
    · rw [List.rtakeWhile_concat_neg _ _ _ (by simpa using hb)]
      simp [hb]

theorem feedByte_escape (packet : Bytes) :
    (cutterOf escape (false, packet)).feedByte escape = (cutterOf escape (true, packet), []) := by
  simp [FramedPacketCutter.feedByte, cutterOf]

theorem feedByte_doubled (packet : Bytes) :
    (cutterOf escape (true, packet)).feedByte escape =
      (cutterOf escape (false, packet ++ [escape]), []) := by
  simp [FramedPacketCutter.feedByte, cutterOf]

theorem feedByte_plain {b : UInt8} (hb : b ≠ escape) (packet : Bytes) :
    (cutterOf escape (false, packet)).feedByte b =
      (cutterOf escape (false, packet ++ [b]), []) := by
  simp [FramedPacketCutter.feedByte, cutterOf, hb]

theorem feedByte_cut {b : UInt8} (hb : b ≠ escape) (packet : Bytes) :
    (cutterOf escape (true, packet)).feedByte b = (cutterOf escape (false, []), [packet]) := by
  simp [FramedPacketCutter.feedByte, cutterOf, hb]

/-- Bytes that are all escape bytes give no packet. -/
theorem feedBytes_escapes (ht : ∀ b ∈ t, b = escape) (mayCut : Bool) (packet : Bytes) :
    ((cutterOf escape (mayCut, packet)).feedBytes t).2 = [] := by
  unfold FramedPacketCutter.feedBytes
  induction t generalizing mayCut packet with
  | nil => rfl
  | cons b t ih =>
    have hrest : ∀ c ∈ t, c = escape := fun c hc => ht c (List.mem_cons_of_mem b hc)
    rw [transduce_cons, ht b List.mem_cons_self]
    cases mayCut with
    | false => rw [feedByte_escape, ih hrest, List.nil_append]
    | true => rw [feedByte_doubled, ih hrest, List.nil_append]

/-- How many packets come does not depend on what was collected. -/
theorem length_feedBytes_packet (mayCut : Bool) (p q t : Bytes) :
    ((cutterOf escape (mayCut, p)).feedBytes t).2.length =
      ((cutterOf escape (mayCut, q)).feedBytes t).2.length := by
  unfold FramedPacketCutter.feedBytes
  induction t generalizing mayCut p q with
  | nil => rfl
  | cons b t ih =>
    rw [transduce_cons, transduce_cons, List.length_append, List.length_append]
    by_cases hb : b = escape
    · subst hb
      cases mayCut with
      | false => rw [feedByte_escape, feedByte_escape, ih true p q]
      | true => rw [feedByte_doubled, feedByte_doubled, ih false (p ++ [b]) (q ++ [b])]
    · cases mayCut with
      | false => rw [feedByte_plain hb, feedByte_plain hb, ih false (p ++ [b]) (q ++ [b])]
      | true => rw [feedByte_cut hb, feedByte_cut hb, List.length_singleton, List.length_singleton]

/-- With and without an undecided escape byte the numbers of packets differ, once another byte
comes: at the first such byte exactly one of the two cutters cuts. -/
theorem length_feedBytes_ne (ht : ∃ b ∈ t, b ≠ escape) (p q : Bytes) :
    ((cutterOf escape (true, p)).feedBytes t).2.length ≠
      ((cutterOf escape (false, q)).feedBytes t).2.length := by
  induction t generalizing p q with
  | nil =>
    obtain ⟨b, hb, -⟩ := ht
    cases hb
  | cons b t ih =>
    by_cases hb : b = escape
    · have hrest : ∃ c ∈ t, c ≠ escape := by
        obtain ⟨c, hc, hne⟩ := ht
        cases hc with
        | head => exact absurd hb hne
        | tail _ hc => exact ⟨c, hc, hne⟩
      have hne := ih hrest q (p ++ [escape])
      unfold FramedPacketCutter.feedBytes at *
      rw [transduce_cons, transduce_cons, hb, feedByte_doubled, feedByte_escape]
      exact hne.symm
    · have hsame := @length_feedBytes_packet escape false [] (q ++ [b]) t
      unfold FramedPacketCutter.feedBytes at *
      rw [transduce_cons, transduce_cons, feedByte_cut hb, feedByte_plain hb]
      simp only [List.length_append, List.length_singleton, List.length_nil, hsame]
      omega

end Broken

/-- **A new stream.**  The packets of a stream after another one broke off and `clear` was
called are those of a fresh cutter exactly when the old stream did not end with an odd number
of escape bytes, or the new one has no other bytes.
SOURCE: framing.rs:38-59, connector.rs:178-217 -/
theorem clear_starts_clean_iff (escape : UInt8) (s t : List UInt8) :
    (((FramedPacketCutter.new escape).feedBytes s).1.clear.feedBytes t).2 =
        ((FramedPacketCutter.new escape).feedBytes t).2 ↔
      Even (s.rtakeWhile (· = escape)).length ∨ ∀ b ∈ t, b = escape := by
  obtain ⟨hescape, heven⟩ := @feedBytes_mayCut escape s
  have hnew : FramedPacketCutter.new escape = cutterOf escape (false, []) := rfl
  have hclear : ((FramedPacketCutter.new escape).feedBytes s).1.clear =
      cutterOf escape (((FramedPacketCutter.new escape).feedBytes s).1.mayCut, []) := by
    simp [FramedPacketCutter.clear, cutterOf, hescape]
  rw [← heven, hclear]
  cases hm : ((FramedPacketCutter.new escape).feedBytes s).1.mayCut with
  | false => simp [hnew]
  | true =>
    simp only [Bool.true_eq_false, false_or]
    constructor
    · intro h
      by_contra hother
      push Not at hother
      exact length_feedBytes_ne hother [] [] (congrArg List.length h)
    · intro ht
      rw [hnew, feedBytes_escapes ht, feedBytes_escapes ht]

/-- A break behind an escape byte: the packet 7 of the new stream is lost, and two empty ones come
in its place.
SOURCE: framing.rs:38-41 -/
theorem clear_keeps_escape :
    (((FramedPacketCutter.new 0xff).feedBytes [1, 0xff]).1.clear.feedBytes
        (frameBytes [7] 0xff)).2 ≠
      ((FramedPacketCutter.new 0xff).feedBytes (frameBytes [7] 0xff)).2 := by
  decide

end Uartbus.Analysis
