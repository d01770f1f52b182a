import Mathlib.Algebra.Order.BigOperators.Group.List
import Mathlib.Algebra.Order.Group.Nat
import Uartbus.Analysis.ConcatSegments
import Uartbus.Interface.HexRecords

/-!
# The segments of a hex file

`get_code` joins the data records of a file to stretches, and it looks at one thing only: whether a
record starts strictly inside a stretch of the records before it (`getCode_eq`).  A record that
starts at or below the first address of a stretch and reaches into it is not noticed, and one
without data that starts inside a stretch is an error.

The records between the data records, those that set the upper part of the addresses among them,
are skipped.
-/

set_option autoImplicit false

namespace Uartbus.Analysis

open Lib Interface Model

variable {records : List (Block UInt8)} {s : Block UInt8} {data : Bytes} {start : ℕ}

/-! ## The loop -/

/-- A stretch as `get_code` keeps it. -/
def segmentOf (building : Bool) (s : Block UInt8) : CodeSegment :=
  ⟨s.address, s.stop, s.data, building⟩

/-- The addresses behind the records are `u64` values.  A `Vec` has less than `2 ^ 63` bytes. -/
def ShortLines (lines : List IntelHexLine) : Prop := ∀ line ∈ lines, line.data.length < 2 ^ 63

theorem appendCode_segmentOf (hend : s.stop + data.length < 2 ^ 64) :
    (segmentOf true s).appendCode data = segmentOf true ⟨s.address, s.data ++ data⟩ := by
  unfold segmentOf CodeSegment.appendCode
  rw [Nat.mod_eq_of_lt hend, Block.stop, Block.stop, List.length_append, Nat.add_assoc]

theorem placeData_eq (hend : start + data.length < 2 ^ 64) (joined : List (Block UInt8)) :
    placeData start data (joined.map (segmentOf true)) =
      (Block.join ⟨start, data⟩ joined).map (segmentOf true) := by
  induction joined with
  | nil =>
    have hnew : CodeSegment.new start = segmentOf true ⟨start, []⟩ := rfl
    have hstop : (⟨start, []⟩ : Block UInt8).stop + data.length < 2 ^ 64 := hend
    rw [List.map_nil, placeData, hnew, appendCode_segmentOf hstop]
    rfl
  | cons s rest ih =>
    have hiff : start = (segmentOf true s).endAddress ↔ start = s.stop := Iff.rfl
    rw [List.map_cons, placeData, Block.join]
    split
    case isTrue hstart =>
      rw [if_pos (hiff.mp hstart), List.map_cons, appendCode_segmentOf (hiff.mp hstart ▸ hend)]
    case isFalse hstart =>
      rw [if_neg fun h => hstart (hiff.mpr h), List.map_cons, ih]

theorem any_isMiddleOf {joined : List (Block UInt8)} :
    ((joined.map (segmentOf true)).any fun segment => segment.isMiddleOf start) = true ↔
      ∃ s ∈ joined, s.address < start ∧ start < s.stop := by
  simp only [List.any_map, List.any_eq_true, Function.comp_apply, CodeSegment.isMiddleOf,
    decide_eq_true_eq]
  rfl

/-- The loop from where it has read `pre`. -/
theorem getCodeLoop_eq (lines : List IntelHexLine) (hlines : ShortLines lines) :
    ∀ pre : List (Block UInt8), ¬ StartsInside pre →
      (¬ StartsInside (pre ++ dataRecords lines) →
        getCodeLoop lines ((stretches pre).map (segmentOf true)) =
          .ok ((stretches (pre ++ dataRecords lines)).map (segmentOf true))) ∧
      (StartsInside (pre ++ dataRecords lines) →
        ∃ err, getCodeLoop lines ((stretches pre).map (segmentOf true)) = .error err) := by
  induction lines with
  | nil =>
    intro pre hpre
    rw [dataRecords, List.append_nil]
    exact ⟨fun _ => rfl, fun h => absurd h hpre⟩
  | cons line lines ih =>
    intro pre hpre
    have hrest : ShortLines lines := fun l hl => hlines l (List.mem_cons_of_mem line hl)
    rw [getCodeLoop, dataRecords]
    by_cases heof : line.recordType = .endOfFile
    · rw [if_pos heof, if_pos heof, List.append_nil]
      exact ⟨fun _ => rfl, fun h => absurd h hpre⟩
    · by_cases hdata : line.recordType = .data
      · rw [if_neg heof, if_neg heof, if_pos hdata, if_neg (not_not.mpr hdata)]
        set record : Block UInt8 := ⟨line.address.toNat, line.data⟩ with hrecord
        have happend : pre ++ record :: dataRecords lines =
            (pre ++ [record]) ++ dataRecords lines := by simp
        by_cases hinside : ∃ s ∈ stretches pre, s.address < record.address ∧ record.address < s.stop
        · -- the record is refused
          refine ⟨fun h => absurd ⟨pre, record, _, rfl, hinside⟩ h, fun _ => ?_⟩
          rw [addDataLine, if_pos (any_isMiddleOf.mpr hinside)]
          exact ⟨_, rfl⟩
        · have hend : record.address + record.data.length < 2 ^ 64 := by
            have haddress := line.address.toNat_lt
            have hlength := hlines line List.mem_cons_self
            show line.address.toNat + line.data.length < 2 ^ 64
            omega
          have hstep : addDataLine ((stretches pre).map (segmentOf true)) line =
              .ok ((stretches (pre ++ [record])).map (segmentOf true)) := by
            rw [addDataLine, if_neg fun h => hinside (any_isMiddleOf.mp h), stretches_concat,
              ← placeData_eq hend]
          have hnext : ¬ StartsInside (pre ++ [record]) := by
            rw [startsInside_concat]
            exact not_or.mpr ⟨hpre, hinside⟩
          rw [happend, hstep]
          exact ih hrest _ hnext
      · rw [if_neg heof, if_neg heof, if_neg hdata, if_pos hdata]
        exact ih hrest pre hpre

/-- **What `get_code` computes.** -/
theorem getCode_eq (file : IntelHexFile) (hlines : ShortLines file.lines) :
    (¬ StartsInside (dataRecords file.lines) →
      file.getCode = .ok ((stretches (dataRecords file.lines)).map (segmentOf false))) ∧
    (StartsInside (dataRecords file.lines) → ∃ err, file.getCode = .error err) := by
  have hnil : ¬ StartsInside ([] : List (Block UInt8)) := by
    rintro ⟨pre, b, post, heq, -⟩
    simp at heq
  obtain ⟨hok, herr⟩ := getCodeLoop_eq file.lines hlines [] hnil
  have hstart : (stretches ([] : List (Block UInt8))).map (segmentOf true) = [] := rfl
  rw [hstart] at hok herr
  unfold IntelHexFile.getCode
  constructor
  · intro h
    rw [hok h]
    simp only [bind, Except.bind, pure, Except.pure, List.map_map]
    rfl
  · intro h
    obtain ⟨err, heq⟩ := herr h
    rw [heq]
    exact ⟨err, rfl⟩

theorem getCode_ok_iff (file : IntelHexFile) (hlines : ShortLines file.lines)
    (segs : List CodeSegment) :
    file.getCode = .ok segs ↔ ¬ StartsInside (dataRecords file.lines) ∧
      segs = (stretches (dataRecords file.lines)).map (segmentOf false) := by
  obtain ⟨hok, herr⟩ := getCode_eq file hlines
  by_cases h : StartsInside (dataRecords file.lines)
  · obtain ⟨err, heq⟩ := herr h
    simp [heq, h]
  · rw [hok h, Except.ok.injEq]
    simp [h, eq_comm]

/-! ## Overlapping records -/

/-- `get_code` is right about overlaps, and its segments are the records. -/
structure DetectsOverlap (file : IntelHexFile) : Prop where
  ok_iff : (∃ segs, file.getCode = .ok segs) ↔ NoOverlap (dataRecords file.lines)
  disjoint : ∀ segs, file.getCode = .ok segs → segs.Pairwise DisjointSegments
  inStep : ∀ segs, file.getCode = .ok segs → ∀ s ∈ segs,
    s.endAddress = s.startAddress + s.data.length
  placed : ∀ segs, file.getCode = .ok segs → ∀ a x, (∃ s ∈ segs, HasByte s a x) ↔
    ∃ r ∈ dataRecords file.lines, PlacedAt r.address r.data a x

/-- A record without data starts strictly inside a stretch of the records before it. -/
def EmptyInside (records : List (Block UInt8)) : Prop :=
  ∃ pre r post, records = pre ++ r :: post ∧ r.data = [] ∧
    ∃ s ∈ stretches pre, s.address < r.address ∧ r.address < s.stop

theorem startsInside_iff_emptyInside (h : NoOverlap records) :
    StartsInside records ↔ EmptyInside records := by
  constructor
  · rintro ⟨pre, r, post, rfl, s, hs, hlow, hhigh⟩
    exact ⟨pre, r, post, rfl, h.data_eq_nil hs hlow hhigh, s, hs, hlow, hhigh⟩
  · rintro ⟨pre, r, post, rfl, -, hinside⟩
    exact ⟨pre, r, post, rfl, hinside⟩

theorem not_emptyInside (h : ∀ r ∈ records, r.data ≠ []) : ¬ EmptyInside records := by
  rintro ⟨pre, r, post, rfl, hdata, -⟩
  exact h r (by simp) hdata

theorem disjointSegments_segmentOf {t : Block UInt8} (h : ∀ a, s.Covers a → ¬ t.Covers a) :
    DisjointSegments (segmentOf false s) (segmentOf false t) :=
  fun a _ _ hx hy => h a hx.bounds hy.bounds

/-- The bytes of the segments are those of the records. -/
theorem exists_hasByte_stretches (records : List (Block UInt8)) (a : ℕ) (x : UInt8) :
    (∃ s ∈ (stretches records).map (segmentOf false), HasByte s a x) ↔
      ∃ r ∈ records, PlacedAt r.address r.data a x := by
  rw [← mem_placedItems, ← (stretches_perm records).mem_iff, mem_placedItems]
  simp only [List.mem_map]
  constructor
  · rintro ⟨_, ⟨s, hs, rfl⟩, hx⟩
    exact ⟨s, hs, hx⟩
  · rintro ⟨s, hs, hx⟩
    exact ⟨_, ⟨s, hs, rfl⟩, hx⟩

/-- **Overlaps that are detected.**  `get_code` is right about a file without an overlap when no
empty record starts inside a stretch before it, and about one with an overlap when some record
starts inside a stretch before it.
SOURCE: ihex.rs:257-295, 317-339 -/
theorem detectsOverlap_iff (file : IntelHexFile)
    (hlines : ∀ line ∈ file.lines, line.data.length < 2 ^ 63) :
    DetectsOverlap file ↔
      (NoOverlap (dataRecords file.lines) ∧ ¬ EmptyInside (dataRecords file.lines)) ∨
      (¬ NoOverlap (dataRecords file.lines) ∧ StartsInside (dataRecords file.lines)) := by
  have hcode := getCode_ok_iff file hlines
  have hok : (∃ segs, file.getCode = .ok segs) ↔ ¬ StartsInside (dataRecords file.lines) := by
    simp only [hcode]
    exact ⟨fun ⟨_, h, _⟩ => h, fun h => ⟨_, h, rfl⟩⟩
  constructor
  · intro h
    have hdetects := hok.symm.trans h.ok_iff
    by_cases hoverlap : NoOverlap (dataRecords file.lines)
    · rw [← startsInside_iff_emptyInside hoverlap]
      exact .inl ⟨hoverlap, hdetects.mpr hoverlap⟩
    · exact .inr ⟨hoverlap, not_not.mp fun hstarts => hoverlap (hdetects.mp hstarts)⟩
  · rintro (⟨hoverlap, hempty⟩ | ⟨hoverlap, hstarts⟩)
    · rw [← startsInside_iff_emptyInside hoverlap] at hempty
      refine ⟨iff_of_true (hok.mpr hempty) hoverlap, ?_, ?_, ?_⟩
      all_goals
        intro segs hsegs
        obtain rfl := ((hcode segs).mp hsegs).2
      · rw [List.pairwise_map]
        exact (noOverlap_stretches.mpr hoverlap).imp disjointSegments_segmentOf
      · intro s hs
        obtain ⟨t, -, rfl⟩ := List.mem_map.mp hs
        rfl
      · exact exists_hasByte_stretches _
    · have hnone : ∀ segs, file.getCode ≠ .ok segs :=
        fun segs hsegs => ((hcode segs).mp hsegs).1 hstarts
      exact ⟨iff_of_false (fun ⟨segs, hsegs⟩ => hnone segs hsegs) hoverlap,
        fun segs hsegs => absurd hsegs (hnone segs), fun segs hsegs => absurd hsegs (hnone segs),
        fun segs hsegs => absurd hsegs (hnone segs)⟩

/-- Two records, one behind the other. -/
theorem detectsOverlap_adjacent :
    DetectsOverlap ⟨[IntelHexFile.createDataLine 0 [0x11], IntelHexFile.createDataLine 1 [0x22],
      IntelHexFile.createEofLine]⟩ := by
  have hrecords : dataRecords [IntelHexFile.createDataLine 0 [0x11],
      IntelHexFile.createDataLine 1 [0x22], IntelHexFile.createEofLine] =
        [⟨0, [0x11]⟩, ⟨1, [0x22]⟩] := by decide +kernel
  refine (detectsOverlap_iff _ (by decide +kernel)).mpr (.inl ?_)
  rw [hrecords]
  refine ⟨?_, not_emptyInside (by simp)⟩
  simp only [NoOverlap, List.pairwise_cons, List.mem_singleton, forall_eq, Block.Covers, Block.stop,
    List.length_singleton, List.not_mem_nil, false_imp_iff, implies_true, List.Pairwise.nil,
    and_true]
  omega

/-- Two records at one address. -/
theorem overlap_at_start_accepted :
    (IntelHexFile.fromLines [":0100000011EE".toList, ":0100000022DD".toList,
      ":00000001FF".toList]).toOption = some ⟨[IntelHexFile.createDataLine 0 [0x11],
        IntelHexFile.createDataLine 0 [0x22], IntelHexFile.createEofLine]⟩ ∧
    ¬ DetectsOverlap ⟨[IntelHexFile.createDataLine 0 [0x11],
      IntelHexFile.createDataLine 0 [0x22], IntelHexFile.createEofLine]⟩ := by
  refine ⟨by decide +kernel, fun h => ?_⟩
  have hnone := h.ok_iff.mp ⟨_, rfl⟩
  exact (List.pairwise_cons.mp hnone).1 _ List.mem_cons_self 0 ⟨le_rfl, Nat.one_pos⟩
    ⟨le_rfl, Nat.one_pos⟩

/-! ## Effective addresses -/

/-- The bytes of the segments with their addresses. -/
def segmentBytes (segs : List CodeSegment) : List (UInt8 × ℕ) :=
  segs.flatMap fun s => s.data.zipIdx s.startAddress

/-- Either the segments have every byte at its effective address, or there is an error. -/
def CarriesEffective (file : IntelHexFile) : Prop :=
  ∀ segs, file.getCode = .ok segs →
    (segmentBytes segs).Perm (placedItems (effectiveRecords file.lines))

theorem segmentBytes_stretches (records : List (Block UInt8)) :
    (segmentBytes ((stretches records).map (segmentOf false))).Perm (placedItems records) := by
  rw [segmentBytes, List.flatMap_map]
  exact stretches_perm records

theorem recordsWithBase_map_snd (base : ℕ) (lines : List IntelHexLine) :
    (recordsWithBase base lines).map Prod.snd = dataRecords lines := by
  induction lines generalizing base with
  | nil => rfl
  | cons line lines ih =>
    rw [recordsWithBase, dataRecords]
    split
    · rfl
    · split
      · rw [List.map_cons, ih]
      · exact ih _

/-- The addresses of a block that is moved up. -/
theorem sum_addresses_moved (base : ℕ) (r : Block UInt8) :
    ((Block.items ⟨base + r.address, r.data⟩).map Prod.snd).sum =
      (r.items.map Prod.snd).sum + base * r.data.length := by
  rw [items_map_snd, items_map_snd]
  generalize r.data.length = n
  induction n with
  | zero => simp
  | succ n ih =>
    rw [List.range'_concat, List.range'_concat, List.sum_append, List.sum_append, ih]
    simp only [List.sum_cons, List.sum_nil]
    ring

/-- Moving records up changes the sum of the addresses by the bytes that are moved. -/
theorem sum_effective (records : List (ℕ × Block UInt8)) :
    ((placedItems (records.map fun p => ⟨p.1 + p.2.address, p.2.data⟩)).map Prod.snd).sum =
      ((placedItems (records.map Prod.snd)).map Prod.snd).sum +
        (records.map fun p => p.1 * p.2.data.length).sum := by
  induction records with
  | nil => rfl
  | cons p records ih =>
    simp only [placedItems, List.map_cons, List.flatMap_cons, List.map_append, List.sum_append,
      List.sum_cons] at ih ⊢
    rw [ih, sum_addresses_moved]
    omega

/-- Records are at their effective addresses when those with data have no base. -/
theorem perm_effective_iff (records : List (ℕ × Block UInt8)) :
    (placedItems (records.map Prod.snd)).Perm
        (placedItems (records.map fun p => ⟨p.1 + p.2.address, p.2.data⟩)) ↔
      ∀ p ∈ records, p.2.data ≠ [] → p.1 = 0 := by
  constructor
  · intro h p hp hdata
    have hsum := (h.map Prod.snd).sum_eq
    rw [sum_effective] at hsum
    have hzero : (records.map fun p => p.1 * p.2.data.length).sum = 0 := by omega
    have hle := List.single_le_sum (fun _ _ => Nat.zero_le _) _ (List.mem_map_of_mem
      (f := fun p : ℕ × Block UInt8 => p.1 * p.2.data.length) hp)
    rw [hzero] at hle
    have hlen := List.length_pos_iff.mpr hdata
    rcases Nat.mul_eq_zero.mp (Nat.le_zero.mp hle) with hbase | hlength
    · exact hbase
    · omega
  · intro h
    rw [placedItems, placedItems, List.flatMap_map, List.flatMap_map]
    refine .of_eq (List.flatMap_congr fun p hp => ?_)
    by_cases hdata : p.2.data = []
    · simp [Block.items, hdata]
    · simp [h p hp hdata]

/-- The lines that `get_code` reads. -/
def readLines (lines : List IntelHexLine) : List IntelHexLine :=
  lines.filter fun line => line.recordType = .data ∨ line.recordType = .endOfFile

theorem getCodeLoop_readLines (lines : List IntelHexLine) (segs : List CodeSegment) :
    getCodeLoop (readLines lines) segs = getCodeLoop lines segs := by
  induction lines generalizing segs with
  | nil => rfl
  | cons line lines ih =>
    rw [readLines, List.filter_cons]
    rw [readLines] at ih
    by_cases heof : line.recordType = .endOfFile
    · rw [if_pos (by simp [heof]), getCodeLoop, getCodeLoop, if_pos heof, if_pos heof]
    · by_cases hdata : line.recordType = .data
      · rw [if_pos (by simp [hdata]), getCodeLoop, getCodeLoop]
        simp only [ih]
      · rw [if_neg (by simp [heof, hdata]), ih, getCodeLoop, if_neg heof, if_pos hdata]

/-- **Extended addresses.**  `get_code` skips the records that are neither data nor the end of the
file and puts the bytes of a data record at the address that stands in it.  So the segments have the
effective addresses when no data record with data is under a base, and otherwise they have not: the
only error is that of the file without those records.
SOURCE: ihex.rs:53-85, 257-295 -/
theorem getCode_effective (file : IntelHexFile)
    (hlines : ∀ line ∈ file.lines, line.data.length < 2 ^ 63) :
    file.getCode = IntelHexFile.getCode ⟨readLines file.lines⟩ ∧
    (∀ segs, file.getCode = .ok segs →
      (segmentBytes segs).Perm (placedItems (dataRecords file.lines))) ∧
    (CarriesEffective file ↔ StartsInside (dataRecords file.lines) ∨
      ∀ p ∈ recordsWithBase 0 file.lines, p.2.data ≠ [] → p.1 = 0) := by
  have hcode := getCode_ok_iff file hlines
  have hplaced : ∀ segs, file.getCode = .ok segs →
      (segmentBytes segs).Perm (placedItems (dataRecords file.lines)) := by
    intro segs hsegs
    rw [((hcode segs).mp hsegs).2]
    exact segmentBytes_stretches _
  refine ⟨?_, hplaced, ?_⟩
  · unfold IntelHexFile.getCode
    rw [getCodeLoop_readLines]
  · rw [← perm_effective_iff, recordsWithBase_map_snd]
    constructor
    · intro h
      by_cases hstarts : StartsInside (dataRecords file.lines)
      · exact .inl hstarts
      · have hsegs := (hcode _).mpr ⟨hstarts, rfl⟩
        exact .inr ((hplaced _ hsegs).symm.trans (h _ hsegs))
    · rintro (hstarts | hperm) segs hsegs
      · exact absurd hstarts ((hcode segs).mp hsegs).1
      · exact (hplaced segs hsegs).trans hperm

/-- A base of `0x10000` that is taken back before the next data record. -/
theorem getCode_effective_zero :
    CarriesEffective ⟨[IntelHexFile.createDataLine 0x102 [0x33],
      IntelHexLine.ofRaw [0x02, 0x00, 0x00, 0x04, 0x00, 0x01, 0xf9],
      IntelHexLine.ofRaw [0x02, 0x00, 0x00, 0x04, 0x00, 0x00, 0xfa],
      IntelHexFile.createDataLine 0x100 [0x11, 0x22], IntelHexFile.createEofLine]⟩ :=
  (getCode_effective _ (by decide +kernel)).2.2.mpr (.inr (by decide +kernel))

/-- A byte at 0 and, behind an extended linear address record, one at `0x10000`: both are put to
0. -/
theorem extended_address_skipped :
    (IntelHexFile.fromLines [":0100000011EE".toList, ":020000040001F9".toList,
      ":0100000022DD".toList, ":00000001FF".toList]).toOption =
        some ⟨[IntelHexFile.createDataLine 0 [0x11],
          IntelHexLine.ofRaw [0x02, 0x00, 0x00, 0x04, 0x00, 0x01, 0xf9],
          IntelHexFile.createDataLine 0 [0x22], IntelHexFile.createEofLine]⟩ ∧
    ¬ CarriesEffective ⟨[IntelHexFile.createDataLine 0 [0x11],
      IntelHexLine.ofRaw [0x02, 0x00, 0x00, 0x04, 0x00, 0x01, 0xf9],
      IntelHexFile.createDataLine 0 [0x22], IntelHexFile.createEofLine]⟩ := by
  refine ⟨by decide +kernel, fun h => ?_⟩
  have hmem := (h _ rfl).mem_iff (a := ((0x22 : UInt8), 0x10000))
  revert hmem
  decide +kernel

end Uartbus.Analysis
