import Uartbus.Analysis.HexRewriting
import Uartbus.Analysis.SegmentGaps
import Uartbus.Analysis.UploadSafety

/-!
# A file that has been uploaded

`ub upload` reads the data records of a file, joins them to one segment and pushes it.  Where no
byte has to be padded the segment has every record at its address, and after a successful upload so
has the program memory (`uploaded_file`).
-/

set_option autoImplicit false

namespace Uartbus.Analysis

open Lib Interface Model

variable {codes out : List CodeSegment} {maxGap : ℕ} {paddingByte : UInt8}

/-- Without padding, `concat_segments` returns the bytes of the segments. -/
theorem hasByte_concatSegments (hwf : ∀ c ∈ codes, WellFormed c)
    (hdis : codes.Pairwise DisjointSegments) (hno : NoPadding maxGap codes)
    (hok : concatSegments codes maxGap paddingByte = .ok out) (a : ℕ) (x : UInt8) :
    (∃ s ∈ out, HasByte s a x) ↔ ∃ c ∈ codes, HasByte c a x := by
  by_cases h2 : 2 ≤ codes.length
  · obtain ⟨ret, hloop, rfl⟩ := concatSegments_loop h2 hok
    obtain ⟨hwf', hdis', hsorted⟩ := inOrder_ok hwf hdis
    obtain ⟨-, ⟨hfaith, -⟩ | ⟨-, hnot⟩⟩ := concatLoop_result hwf' hdis' hsorted hloop
    · simp only [List.mem_map, exists_exists_and_eq_and]
      refine (hfaith.bytes a x).trans ?_
      simp only [mem_inOrder]
    · exact absurd (noPadding_inOrder.mpr hno) hnot
  · rw [concatSegments, if_pos (by omega)] at hok
    rw [Except.ok.inj hok]

/-- The segments of a file are as `concat_segments` expects them. -/
theorem getCode_wellFormed {file : IntelHexFile} (hlines : ShortLines file.lines)
    (hoverlap : NoOverlap (dataRecords file.lines)) (hcodes : file.getCode = .ok codes) :
    (∀ c ∈ codes, WellFormed c) ∧ codes.Pairwise DisjointSegments ∧
      ∀ a x, (∃ c ∈ codes, HasByte c a x) ↔
        ∃ r ∈ dataRecords file.lines, PlacedAt r.address r.data a x := by
  obtain ⟨-, rfl⟩ := (getCode_ok_iff file hlines codes).mp hcodes
  refine ⟨?_, ?_, exists_hasByte_stretches _⟩
  · intro c hc
    obtain ⟨s, hs, rfl⟩ := List.mem_map.mp hc
    obtain ⟨r, hr, hstop⟩ := stop_of_mem_stretches hs
    exact ⟨rfl, hstop.trans_lt (stop_of_mem_dataRecords hlines r hr)⟩
  · rw [List.pairwise_map]
    exact (noOverlap_stretches.mpr hoverlap).imp disjointSegments_segmentOf

/-- **An uploaded file is in the memory.**  When `push_code` has returned the address, the program
memory has every data record of the file at its address, whatever requests and answers got lost.
SOURCE: upload.rs:44-66, 159-235; ihex.rs:191-206, 257-295, 367-414; ub_bootloader.c:229-380 -/
theorem uploaded_file (p : Platform) (initial : ℕ → UInt8) (dev : UartBusDevice)
    (lines : List Text) (file : IntelHexFile) (codes : List CodeSegment) (code : CodeSegment)
    (fromAddress : ℤ) (device : Flash p) (acts : List UploadAction) (s : UploadSystem p)
    (start : UInt16) (hload : IntelHexFile.loadFile lines = .ok file)
    (hlines : ∀ line ∈ file.lines, line.data.length < 2 ^ 63) (hcodes : file.getCode = .ok codes)
    (hoverlap : NoOverlap (dataRecords file.lines)) (hno : NoPadding 100 codes)
    (hcode : getCodeFromFile lines = .ok (.code code))
    (hrun : run (uploadStep dev code) (UploadSystem.begin dev code fromAddress device) acts =
      some s)
    (hok : s.program = .done (.returned (.ok start))) :
    ∀ r ∈ dataRecords file.lines,
      readRange (programMemory initial s.device.pages) r.address r.stop = r.data := by
  obtain ⟨hwf, hdis, hbytes⟩ := getCode_wellFormed hlines hoverlap hcodes
  have hone : concatSegments codes 100 0xff = .ok [code] := by
    unfold getCodeFromFile at hcode
    simp only [hload, hcodes, bind, Except.bind] at hcode
    cases hconcat : concatSegments codes 100 0xff with
    | error e => simp [hconcat] at hcode
    | ok out =>
      simp only [hconcat, pure, Except.pure, Except.ok.injEq] at hcode
      unfold oneSegment at hcode
      split at hcode <;> cases hcode
      rfl
  have hinv : UploadInv initial code s :=
    run_invariant_all (fun _ _ _ hs hstep => hs.step hstep)
      (uploadInv_begin initial dev code fromAddress device) hrun
  intro r hr
  refine readRange_eq_iff.mpr fun a x hx => hinv.programmed hok a x ?_
  obtain ⟨c, hc, hcx⟩ :=
    (hasByte_concatSegments hwf hdis hno hone a x).mpr ((hbytes a x).mpr ⟨r, hr, hx⟩)
  rwa [List.mem_singleton.mp hc] at hcx

/-- Two records and the end; the second record belongs in front of the first. -/
def twoRecordFile : IntelHexFile :=
  ⟨[IntelHexFile.createDataLine 0x2002 [3], IntelHexFile.createDataLine 0x2000 [1, 2],
    IntelHexFile.createEofLine]⟩

/-- The segment of the two records. -/
def twoRecordCode : CodeSegment := ⟨0x2000, 0x2003, [1, 2, 3], false⟩

/-- A request and its answer. -/
def exchange : List UploadAction := [.send, .deliverRequest, .deliverAnswer, .receive]

/-- The answer of the push is lost.  The push is made again and refused, and the address is asked
for once more. -/
def lostAnswerActs : List UploadAction :=
  exchange ++ .advance :: exchange ++ .advance :: exchange ++ .advance :: exchange ++
    [.send, .deliverRequest, .loseAnswer 0, .giveUp] ++ exchange ++ .advance :: exchange ++
    .advance :: exchange

/-- The records of `twoRecordFile` are in the memory after `lostAnswerActs`. -/
theorem uploaded_file_two_records :
    ∃ s : UploadSystem smallPlatform,
      run (uploadStep ⟨2, 100, 2⟩ twoRecordCode) (UploadSystem.begin ⟨2, 100, 2⟩ twoRecordCode 1
        (Flash.powerOn (Vector.replicate 4 0) true)) lostAnswerActs = some s ∧
      readRange (programMemory (fun _ => 0xff) s.device.pages) 0x2002 0x2003 = [3] ∧
      readRange (programMemory (fun _ => 0xff) s.device.pages) 0x2000 0x2002 = [1, 2] := by
  refine exists_eq_some (Q := fun s => returnedStart s.program = some 0x2000) (by decide +kernel)
    fun s hrun hs => ?_
  have hrecords : dataRecords twoRecordFile.lines = [⟨0x2002, [3]⟩, ⟨0x2000, [1, 2]⟩] := by
    decide +kernel
  have hfile := uploaded_file smallPlatform (fun _ => 0xff) _
    [":0120020003DA".toList, ":022000000102DB".toList, ":00000001FF".toList] twoRecordFile
    [⟨0x2002, 0x2003, [3], false⟩, ⟨0x2000, 0x2002, [1, 2], false⟩] _ 1 _ _ s 0x2000
    (by decide +kernel) (by decide +kernel) rfl ?_ ⟨by simp [GapFree], by simp⟩ (by decide +kernel)
    hrun (program_of_returnedStart hs)
  · rw [hrecords] at hfile
    exact ⟨hfile _ List.mem_cons_self, hfile _ (List.mem_cons_of_mem _ List.mem_cons_self)⟩
  · rw [hrecords, NoOverlap, List.pairwise_pair]
    intro a hfirst hsecond
    simp only [Block.Covers, Block.stop] at hfirst hsecond
    simp at hfirst hsecond
    omega

end Uartbus.Analysis
