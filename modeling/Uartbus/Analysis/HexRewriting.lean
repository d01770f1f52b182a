import Uartbus.Analysis.HexLines
import Uartbus.Analysis.HexSegments

/-!
# Rewriting a hex file

`from_segments` cuts the stretches of a file into lines of 16 bytes, prints them and reads them
again.  A printed line has its address in 16 bits.  So the rewritten file has the records
`printedRecords`: the pieces of the stretches, at their addresses modulo `2 ^ 16`
(`dataRecords_rereadLines`).
-/

set_option autoImplicit false

namespace Uartbus.Analysis

open Lib Interface Model

variable {records : List (Block UInt8)} {lines : List IntelHexLine}

/-! ## A printed line -/

theorem hexDigit_notWhitespace {c : Char} {x : ℕ} (h : HexDigit c x) : isRustWhitespace c = false :=
  hexDigit_induct (p := fun c _ => isRustWhitespace c = false) (by decide) (by decide) h

/-- A line that is printed is read with the same bytes. -/
theorem new_toLineString {line : IntelHexLine} (h : 5 ≤ line.raw.length) :
    IntelHexLine.new line.toLineString = .ok (IntelHexLine.ofRaw line.raw) := by
  refine new_eq_ok_iff.mpr ⟨toHex line.raw, line.raw, ?_, hexDigits_toHex _, h, rfl⟩
  rw [toLineString_eq]
  refine trim_eq_self fun c hc => ?_
  rcases List.mem_cons.mp hc with rfl | hc
  · decide
  · exact hexDigits_forall (fun _ _ => hexDigit_notWhitespace) (hexDigits_toHex line.raw) c hc

/-- The bytes of a data line in front of its checksum. -/
def lineFront (address : UInt32) (data : Bytes) : Bytes :=
  [UInt8.ofNat data.length, ((address >>> 8) &&& 0xff).toUInt8, (address &&& 0xff).toUInt8,
    0] ++ data

theorem checksum_append_last (front : Bytes) (b c : UInt8) :
    checksum (front ++ [b]) 0 ((front ++ [b]).length - 1) =
      checksum (front ++ [c]) 0 ((front ++ [c]).length - 1) := by
  simp [checksum]

/-- The checksum byte is computed with a zero in its place. -/
theorem createDataLine_raw (address : UInt32) (data : Bytes) :
    (IntelHexFile.createDataLine address data).raw = lineFront address data ++
      [(IntelHexFile.createDataLine address data).checksum] := rfl

theorem createDataLine_valid (address : UInt32) (data : Bytes) :
    (IntelHexFile.createDataLine address data).checksum =
      checksum (IntelHexFile.createDataLine address data).raw 0
        ((IntelHexFile.createDataLine address data).raw.length - 1) := by
  exact checksum_append_last (lineFront address data) 0 _

/-- The address of a printed line has 16 bits. -/
theorem printed_address (address : UInt32) :
    ((((address >>> 8) &&& 0xff).toUInt8.toUInt32 <<< 8) |||
      (address &&& 0xff).toUInt8.toUInt32).toNat = address.toNat % 2 ^ 16 := by
  have hmask : ∀ x : UInt32, (x &&& 0xff).toUInt8.toUInt32.toNat = x.toNat % 256 := by
    intro x
    rw [UInt8.toNat_toUInt32, UInt32.toNat_toUInt8, UInt32.toNat_and,
      show (0xff : UInt32).toNat = 2 ^ 8 - 1 from rfl, Nat.and_two_pow_sub_one_eq_mod]
    omega
  have hhigh : (address >>> 8).toNat = address.toNat / 256 := by
    rw [UInt32.toNat_shiftRight, Nat.shiftRight_eq_div_pow]
    rfl
  have hshift : (((address >>> 8) &&& 0xff).toUInt8.toUInt32 <<< 8).toNat =
      (address.toNat / 256 % 256) <<< 8 := by
    rw [UInt32.toNat_shiftLeft, hmask, hhigh, Nat.shiftLeft_eq, Nat.shiftLeft_eq]
    show address.toNat / 256 % 256 * 2 ^ 8 % 2 ^ 32 = _
    omega
  rw [UInt32.toNat_or, hshift, hmask, ← Nat.shiftLeft_add_eq_or_of_lt (by omega), Nat.shiftLeft_eq]
  omega

/-- **A printed data line**, as it is read again. -/
theorem ofRaw_createDataLine (address : UInt32) (data : Bytes) :
    (IntelHexLine.ofRaw (IntelHexFile.createDataLine address data).raw).recordType = .data ∧
    (IntelHexLine.ofRaw (IntelHexFile.createDataLine address data).raw).data = data ∧
    (IntelHexLine.ofRaw (IntelHexFile.createDataLine address data).raw).address.toNat =
      address.toNat % 2 ^ 16 := by
  refine ⟨rfl, ?_, printed_address address⟩
  rw [createDataLine_raw]
  simp [IntelHexLine.ofRaw, lineFront]

/-! ## The lines of a segment -/

/-- The lines of `from_segments` for a stretch. -/
def lineOf (p : Block UInt8) : IntelHexLine :=
  IntelHexFile.createDataLine (UInt32.ofNat p.address) p.data

/-- The data records of the rewritten file as they are printed. -/
def printedRecords (records : List (Block UInt8)) : List (Block UInt8) :=
  (stretches records).flatMap fun s =>
    (s.pieces 16 s.data.length).map fun p => ⟨p.address % 2 ^ 16, p.data⟩

/-- The loop of `from_segments` over the data of a segment. -/
theorem segmentLines_eq (data : Bytes) (fuel : ℕ) :
    ∀ addr offset, addr + (data.length - offset) < 2 ^ 64 →
      segmentLines data fuel addr offset =
        (Block.pieces 16 fuel ⟨addr, data.drop offset⟩).map lineOf := by
  induction fuel with
  | zero => exact fun _ _ _ => rfl
  | succ fuel ih =>
    intro addr offset hend
    rw [segmentLines, Block.pieces]
    dsimp only
    by_cases hoffset : offset < data.length
    · have hne : ¬ (data.drop offset).isEmpty = true := by
        simp only [List.isEmpty_iff, List.drop_eq_nil_iff]
        omega
      rw [if_pos hoffset, if_neg hne, List.map_cons, List.drop_take, List.drop_drop]
      rcases Nat.le_total (offset + 16) data.length with hle | hle
      · have hnext : min (offset + 16) data.length = offset + 16 := Nat.min_eq_left hle
        rw [hnext, Nat.add_sub_cancel_left, Nat.mod_eq_of_lt (by omega), ih _ _ (by omega)]
        rfl
      · -- the last line, with nothing behind it
        have hnext : min (offset + 16) data.length = data.length := Nat.min_eq_right hle
        have htake : (data.drop offset).take (data.length - offset) =
            (data.drop offset).take 16 := by
          rw [List.take_of_length_le (by simp), List.take_of_length_le (by simp; omega)]
        have hlines : ∀ addr, segmentLines data fuel addr data.length = [] := by
          intro addr
          cases fuel with
          | zero => rfl
          | succ fuel => rw [segmentLines, if_neg (lt_irrefl _)]
        have hpieces : ∀ addr : ℕ, Block.pieces 16 fuel ⟨addr, data.drop (offset + 16)⟩ = [] := by
          intro addr
          rw [List.drop_of_length_le hle]
          cases fuel <;> rfl
        rw [hnext, htake, hlines, hpieces]
        rfl
    · have hempty : (data.drop offset).isEmpty = true := by
        simp only [List.isEmpty_iff, List.drop_eq_nil_iff]
        omega
      rw [if_neg hoffset, if_pos hempty]
      rfl

/-! ## The rewritten file -/

/-- The pieces of the stretches, one for each data line. -/
def linePieces (records : List (Block UInt8)) : List (Block UInt8) :=
  (stretches records).flatMap fun s => s.pieces 16 s.data.length

theorem printedRecords_eq (records : List (Block UInt8)) :
    printedRecords records = (linePieces records).map fun p => ⟨p.address % 2 ^ 16, p.data⟩ := by
  rw [printedRecords, linePieces, List.map_flatMap]

theorem mem_linePieces {p : Block UInt8} (hp : p ∈ linePieces records) :
    p.data ≠ [] ∧ p.data.length ≤ 16 := by
  obtain ⟨s, -, hp⟩ := List.mem_flatMap.mp hp
  exact mem_pieces (by decide) _ hp

/-- The lines hold what the stretches hold. -/
theorem placedItems_linePieces (records : List (Block UInt8)) :
    placedItems (linePieces records) = placedItems (stretches records) := by
  rw [linePieces, placedItems, placedItems, List.flatMap_assoc]
  exact List.flatMap_congr fun s _ => pieces_items (by decide) _ s le_rfl

/-- The lines of the file that `from_segments` makes. -/
def rewrittenLines (records : List (Block UInt8)) : List IntelHexLine :=
  (linePieces records).map lineOf ++ [IntelHexFile.createEofLine]

theorem rewrittenLines_valid (records : List (Block UInt8)) :
    ∀ l ∈ rewrittenLines records, 5 ≤ l.raw.length ∧ l.raw.getLastD 0 = l.checksum ∧
      l.checksum = checksum l.raw 0 (l.raw.length - 1) := by
  intro l hl
  rcases List.mem_append.mp hl with hl | hl
  · obtain ⟨p, -, rfl⟩ := List.mem_map.mp hl
    refine ⟨?_, ?_, createDataLine_valid _ _⟩
    · rw [lineOf, createDataLine_raw]
      simp [lineFront]
    · rw [lineOf, createDataLine_raw]
      exact List.getLastD_concat
  · obtain rfl := List.mem_singleton.mp hl
    decide

theorem fromSegments_eq (hstop : ∀ r ∈ records, r.stop < 2 ^ 64) :
    fromSegments ((stretches records).map (segmentOf false)) = .ok ⟨rewrittenLines records⟩ := by
  have hlines : ((stretches records).map (segmentOf false)).flatMap (fun code =>
      segmentLines code.data code.data.length code.startAddress 0) =
        (linePieces records).map lineOf := by
    rw [List.flatMap_map, linePieces, List.map_flatMap]
    refine List.flatMap_congr fun s hs => ?_
    obtain ⟨r, hr, heq⟩ := stop_of_mem_stretches hs
    have hend : s.stop < 2 ^ 64 := heq ▸ hstop r hr
    exact segmentLines_eq s.data s.data.length s.address 0 hend
  have hvalid : IntelHexFile.assertValid ⟨rewrittenLines records⟩ = .ok () :=
    assertValid_eq_ok_iff.mpr fun l hl => (rewrittenLines_valid records l hl).2.2
  unfold fromSegments
  rw [hlines]
  exact congrArg (· >>= fun _ => pure _) hvalid

/-- The lines of the rewritten file as they are read. -/
def rereadLines (records : List (Block UInt8)) : List IntelHexLine :=
  (rewrittenLines records).map fun l => IntelHexLine.ofRaw l.raw

theorem fromLines_toLineString (h : ∀ l ∈ lines, 5 ≤ l.raw.length) :
    IntelHexFile.fromLines (lines.map IntelHexLine.toLineString) =
      .ok ⟨lines.map fun l => IntelHexLine.ofRaw l.raw⟩ := by
  have hread : (lines.map IntelHexLine.toLineString).mapM IntelHexLine.new =
      .ok (lines.map fun l => IntelHexLine.ofRaw l.raw) := by
    induction lines with
    | nil => rfl
    | cons l lines ih =>
      rw [List.map_cons, List.mapM_cons, new_toLineString (h l List.mem_cons_self),
        ih fun m hm => h m (List.mem_cons_of_mem l hm)]
      rfl
  unfold IntelHexFile.fromLines
  rw [hread]
  rfl

theorem rereadLines_valid (records : List (Block UInt8)) :
    IntelHexFile.assertValid ⟨rereadLines records⟩ = .ok () := by
  refine assertValid_eq_ok_iff.mpr fun l hl => ?_
  obtain ⟨m, hm, rfl⟩ := List.mem_map.mp hl
  obtain ⟨-, hlast, hcheck⟩ := rewrittenLines_valid records m hm
  exact hlast.trans hcheck

theorem dataRecords_lineOf (p : Block UInt8) (lines : List IntelHexLine) :
    dataRecords (IntelHexLine.ofRaw (lineOf p).raw :: lines) =
      ⟨p.address % 2 ^ 16, p.data⟩ :: dataRecords lines := by
  obtain ⟨htype, hdata, haddress⟩ := ofRaw_createDataLine (UInt32.ofNat p.address) p.data
  rw [UInt32.toNat_ofNat', Nat.mod_mod_of_dvd _ (by decide)] at haddress
  rw [dataRecords, lineOf, htype, hdata, haddress]
  rfl

/-- **The rewritten file** has the printed records. -/
theorem dataRecords_rereadLines (records : List (Block UInt8)) :
    dataRecords (rereadLines records) = printedRecords records := by
  rw [printedRecords_eq, rereadLines, rewrittenLines]
  induction linePieces records with
  | nil => rfl
  | cons p pieces ih => exact (dataRecords_lineOf p _).trans (congrArg _ ih)

theorem rereadLines_short (records : List (Block UInt8)) : ShortLines (rereadLines records) := by
  intro l hl
  obtain ⟨m, hm, rfl⟩ := List.mem_map.mp hl
  rcases List.mem_append.mp hm with hm | hm
  · obtain ⟨p, hp, rfl⟩ := List.mem_map.mp hm
    rw [lineOf, (ofRaw_createDataLine _ _).2.1]
    exact (mem_linePieces hp).2.trans_lt (by decide)
  · obtain rfl := List.mem_singleton.mp hm
    decide

/-- Printing and reading the file of the segments again gives the same bytes at the same
addresses. -/
def RewritePreserves (segs : List CodeSegment) : Prop :=
  ∃ file reread segs', fromSegments segs = .ok file ∧
    IntelHexFile.fromLines (file.lines.map IntelHexLine.toLineString) = .ok reread ∧
    reread.assertValid = .ok () ∧ reread.getCode = .ok segs' ∧
      ∀ a x, (∃ s ∈ segs', HasByte s a x) ↔ ∃ s ∈ segs, HasByte s a x

/-- The condition on the printed records. -/
theorem rewritePreserves_iff_printed (hstop : ∀ r ∈ records, r.stop < 2 ^ 64) :
    RewritePreserves ((stretches records).map (segmentOf false)) ↔
      ¬ StartsInside (printedRecords records) ∧
        ∀ a x, (∃ r ∈ printedRecords records, PlacedAt r.address r.data a x) ↔
          ∃ r ∈ records, PlacedAt r.address r.data a x := by
  have hreread : IntelHexFile.fromLines ((rewrittenLines records).map IntelHexLine.toLineString) =
      .ok ⟨rereadLines records⟩ :=
    fromLines_toLineString fun l hl => (rewrittenLines_valid records l hl).1
  have hcode := getCode_ok_iff ⟨rereadLines records⟩ (rereadLines_short records)
  rw [dataRecords_rereadLines] at hcode
  constructor
  · rintro ⟨file, reread, segs', hfile, hlines, -, hsegs, hsame⟩
    rw [fromSegments_eq hstop] at hfile
    obtain rfl := Except.ok.inj hfile
    rw [hreread] at hlines
    obtain rfl := Except.ok.inj hlines
    obtain ⟨hstarts, rfl⟩ := (hcode segs').mp hsegs
    refine ⟨hstarts, fun a x => ?_⟩
    rw [← exists_hasByte_stretches, ← exists_hasByte_stretches records]
    exact hsame a x
  · rintro ⟨hstarts, hsame⟩
    refine ⟨_, _, _, fromSegments_eq hstop, hreread, rereadLines_valid records,
      (hcode _).mpr ⟨hstarts, rfl⟩, fun a x => ?_⟩
    rw [exists_hasByte_stretches, exists_hasByte_stretches]
    exact hsame a x

/-! ## Files without an overlap -/

theorem noOverlap_linePieces (h : NoOverlap records) : NoOverlap (linePieces records) := by
  rw [noOverlap_iff_nodup, placedItems_linePieces, ← noOverlap_iff_nodup]
  exact noOverlap_stretches.mpr h

/-- A line at `0x10000` or above is printed with a lower address, and then its first byte is not
where it was: the line that has that place now would have covered it before. -/
theorem linePieces_low (hoverlap : NoOverlap records)
    (hsame : ∀ a x, (∃ r ∈ printedRecords records, PlacedAt r.address r.data a x) ↔
      ∃ r ∈ records, PlacedAt r.address r.data a x) :
    ∀ p ∈ linePieces records, p.address < 2 ^ 16 := by
  have hcovers : ∀ {p : Block UInt8}, p ∈ linePieces records → p.Covers p.address := by
    intro p hp
    have hpos := List.length_pos_iff.mpr (mem_linePieces hp).1
    exact ⟨le_rfl, by unfold Block.stop; omega⟩
  -- the first byte of every line is still there, in a line that starts below 2 ^ 16
  have hcovered : ∀ p ∈ linePieces records, ∃ q ∈ linePieces records,
      q.address % 2 ^ 16 ≤ p.address ∧ p.address < q.address % 2 ^ 16 + q.data.length := by
    intro p hp
    obtain ⟨x, hx⟩ := exists_placedAt (hcovers hp).1 (hcovers hp).2
    have hrecord : ∃ r ∈ records, PlacedAt r.address r.data p.address x := by
      rw [← mem_placedItems, ← (stretches_perm records).mem_iff, ← placedItems_linePieces,
        mem_placedItems]
      exact ⟨p, hp, hx⟩
    obtain ⟨r, hr, hr'⟩ := (hsame _ _).mpr hrecord
    rw [printedRecords_eq] at hr
    obtain ⟨q, hq, rfl⟩ := List.mem_map.mp hr
    exact ⟨q, hq, hr'.bounds⟩
  have hbound : ∀ p ∈ linePieces records, p.address < 2 ^ 16 + 15 := by
    intro p hp
    obtain ⟨q, hq, -, hlt⟩ := hcovered p hp
    have hlen := (mem_linePieces hq).2
    omega
  intro p hp
  by_contra hhigh
  obtain ⟨q, hq, hle, hlt⟩ := hcovered p hp
  have hlen := (mem_linePieces hq).2
  have hqbound := hbound q hq
  have hqlow : q.address < 2 ^ 16 := by omega
  rw [Nat.mod_eq_of_lt hqlow] at hle hlt
  obtain rfl := (noOverlap_linePieces hoverlap).eq_of_covers hp hq (hcovers hp) ⟨hle, hlt⟩
  exact hhigh hqlow

/-- When no line is moved, the bytes are where they were, and it is left that the lines can be
read. -/
theorem rewritePreserves_iff_startsInside (hstop : ∀ r ∈ records, r.stop < 2 ^ 64)
    (hlow : ∀ p ∈ linePieces records, p.address < 2 ^ 16) :
    RewritePreserves ((stretches records).map (segmentOf false)) ↔
      ¬ StartsInside (linePieces records) := by
  have hprinted : printedRecords records = linePieces records := by
    rw [printedRecords_eq]
    refine (List.map_congr_left fun p hp => ?_).trans (List.map_id _)
    rw [Nat.mod_eq_of_lt (hlow p hp)]
    rfl
  rw [rewritePreserves_iff_printed hstop, hprinted]
  refine ⟨fun h => h.1, fun h => ⟨h, fun a x => ?_⟩⟩
  rw [← mem_placedItems, ← mem_placedItems, placedItems_linePieces,
    (stretches_perm records).mem_iff]

/-- Without an overlap the rewritten file is the same when no line is moved. -/
theorem rewritePreserves_iff_low (hstop : ∀ r ∈ records, r.stop < 2 ^ 64)
    (hoverlap : NoOverlap records) :
    RewritePreserves ((stretches records).map (segmentOf false)) ↔
      ∀ p ∈ linePieces records, p.address < 2 ^ 16 := by
  constructor
  · intro h
    exact linePieces_low hoverlap ((rewritePreserves_iff_printed hstop).mp h).2
  · intro hlow
    rw [rewritePreserves_iff_startsInside hstop hlow,
      startsInside_iff_emptyInside (noOverlap_linePieces hoverlap)]
    exact not_emptyInside fun p hp => (mem_linePieces hp).1

theorem linePieces_low_iff :
    (∀ p ∈ linePieces records, p.address < 2 ^ 16) ↔
      ∀ s ∈ stretches records, ∀ k, s.address + 16 * k < s.stop → s.address + 16 * k < 2 ^ 16 := by
  have hpieces := fun s : Block UInt8 => exists_piece_at (by decide : 0 < 16) _ s le_rfl
  constructor
  · intro h s hs k hk
    obtain ⟨p, hp, heq⟩ := (hpieces s _).mpr ⟨k, rfl, hk⟩
    rw [← heq]
    exact h p (List.mem_flatMap.mpr ⟨s, hs, hp⟩)
  · intro h p hp
    obtain ⟨s, hs, hp⟩ := List.mem_flatMap.mp hp
    obtain ⟨k, heq, hlt⟩ := (hpieces s p.address).mp ⟨p, hp, rfl⟩
    rw [heq] at hlt ⊢
    exact h s hs k hlt

theorem stop_of_mem_dataRecords (h : ShortLines lines) :
    ∀ r ∈ dataRecords lines, r.stop < 2 ^ 64 := by
  induction lines with
  | nil => simp [dataRecords]
  | cons line lines ih =>
    have hrest := ih fun l hl => h l (List.mem_cons_of_mem line hl)
    intro r hr
    rw [dataRecords] at hr
    split at hr
    · exact absurd hr List.not_mem_nil
    · split at hr
      · rcases List.mem_cons.mp hr with rfl | hr
        · have haddress := line.address.toNat_lt
          have hlength := h line List.mem_cons_self
          show line.address.toNat + line.data.length < 2 ^ 64
          omega
        · exact hrest r hr
      · exact hrest r hr

/-- **Rewriting a file.**  The program is the same when the printed lines can be read again and
have every byte where it was.  For a file whose records do not overlap that is so exactly when no
line of 16 bytes of a stretch starts at `0x10000` or above.  For any other file without such a line
it is so exactly when no line starts inside a stretch of the lines in front of it.
SOURCE: ihex.rs:98-169, 229-295, 416-434; apps/ihex.rs:164-188 -/
theorem rewritePreserves_iff (file : IntelHexFile) (segs : List CodeSegment)
    (hlines : ∀ line ∈ file.lines, line.data.length < 2 ^ 63) (hcode : file.getCode = .ok segs) :
    (RewritePreserves segs ↔ ¬ StartsInside (printedRecords (dataRecords file.lines)) ∧
      ∀ a x, (∃ r ∈ printedRecords (dataRecords file.lines), PlacedAt r.address r.data a x) ↔
        ∃ r ∈ dataRecords file.lines, PlacedAt r.address r.data a x) ∧
    (NoOverlap (dataRecords file.lines) →
      (RewritePreserves segs ↔ ∀ s ∈ stretches (dataRecords file.lines), ∀ k,
        s.address + 16 * k < s.stop → s.address + 16 * k < 2 ^ 16)) ∧
    ((∀ s ∈ stretches (dataRecords file.lines), ∀ k,
        s.address + 16 * k < s.stop → s.address + 16 * k < 2 ^ 16) →
      (RewritePreserves segs ↔ ¬ StartsInside (linePieces (dataRecords file.lines)))) := by
  obtain rfl := ((getCode_ok_iff file hlines segs).mp hcode).2
  have hstop := stop_of_mem_dataRecords hlines
  refine ⟨rewritePreserves_iff_printed hstop, fun hoverlap => ?_, fun hlow => ?_⟩
  · rw [rewritePreserves_iff_low hstop hoverlap, linePieces_low_iff]
  · exact rewritePreserves_iff_startsInside hstop (linePieces_low_iff.mpr hlow)

/-- A record that reaches over `0x10000`, in one line. -/
theorem rewritePreserves_one_line :
    RewritePreserves [⟨0xffff, 0x10001, [0x11, 0x22], false⟩] := by
  have hrecords : dataRecords [IntelHexFile.createDataLine 0xffff [0x11, 0x22],
      IntelHexFile.createEofLine] = [⟨0xffff, [0x11, 0x22]⟩] := by decide +kernel
  refine ((rewritePreserves_iff ⟨[IntelHexFile.createDataLine 0xffff [0x11, 0x22],
    IntelHexFile.createEofLine]⟩ _ (by decide +kernel) rfl).2.1 ?_).mpr ?_
  · rw [hrecords]
    exact List.pairwise_singleton _ _
  · rw [hrecords]
    intro s hs k hk
    obtain rfl := List.mem_singleton.mp hs
    simp only [Block.stop, List.length_cons, List.length_nil] at hk ⊢
    omega

/-- A record of 32 bytes at `0xFFF0`: the second line goes to 0. -/
theorem rewriting_moves_line :
    (IntelHexFile.fromLines [":20FFF000".toList ++ List.replicate 64 '0' ++ "F1".toList,
      ":00000001FF".toList]).toOption =
        some ⟨[IntelHexFile.createDataLine 0xfff0 (List.replicate 32 0),
          IntelHexFile.createEofLine]⟩ ∧
    (IntelHexFile.getCode ⟨[IntelHexFile.createDataLine 0xfff0 (List.replicate 32 0),
      IntelHexFile.createEofLine]⟩).toOption =
        some [⟨0xfff0, 0x10010, List.replicate 32 0, false⟩] ∧
    ¬ RewritePreserves [⟨0xfff0, 0x10010, List.replicate 32 0, false⟩] := by
  refine ⟨by decide +kernel, by decide +kernel, fun h => ?_⟩
  have hstop : ∀ r ∈ [(⟨0xfff0, List.replicate 32 0⟩ : Block UInt8)], r.stop < 2 ^ 64 := by decide
  have hlow := (rewritePreserves_iff_low hstop (List.pairwise_singleton _ _)).mp h
  have hmoved := linePieces_low_iff.mp hlow _ List.mem_cons_self 1 (by decide)
  exact absurd hmoved (by decide)

end Uartbus.Analysis
