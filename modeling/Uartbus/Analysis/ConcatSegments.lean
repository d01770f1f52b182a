import Uartbus.Lib.Image
import Uartbus.Lib.Loop
import Uartbus.Lib.Trace
import Uartbus.Model.Ihex

/-!
# Concatenating firmware segments

`concat_segments` sorts the segments by address and appends each to the first segment of the
result that ends below it, with padding over the gap.  `append_code` moves the end address with
the data; the padding loop pushes bytes and leaves the end address where it was.  From the
first padding byte on the end address of that segment is behind its data, and every later
segment is put at the wrong place.

The loop is followed with an invariant that holds on all inputs (`SegmentOk`), with `Faithful`,
which holds exactly as long as no byte has been padded, and with `Shape`, from which it can be
read off the codes (`NoPadding`) when this is so.
-/

set_option autoImplicit false

namespace Uartbus.Analysis

open Lib Model

variable {pre' ret sorted : List CodeSegment} {c d t : CodeSegment}

/-- Byte `x` belongs at address `a` in the segment. -/
def HasByte (c : CodeSegment) (a : ℕ) (x : UInt8) : Prop := PlacedAt c.startAddress c.data a x

/-- The address range of the segment is that of its data, within 64 bits. -/
def WellFormed (c : CodeSegment) : Prop :=
  c.endAddress = c.startAddress + c.data.length ∧ c.endAddress < 2 ^ 64

def DisjointSegments (c d : CodeSegment) : Prop := ∀ a x y, HasByte c a x → ¬ HasByte d a y

/-- The result keeps every byte at its address. -/
structure KeepsBytes (codes : List CodeSegment) (paddingByte : UInt8)
    (out : List CodeSegment) : Prop where
  inStep : ∀ s ∈ out, s.endAddress = s.startAddress + s.data.length
  placed : ∀ c ∈ codes, ∀ a x, HasByte c a x →
    ∃ (k : ℕ) (s : CodeSegment), out[k]? = some s ∧ HasByte s a x ∧
      ∀ (k' : ℕ) (s' : CodeSegment) (y : UInt8), out[k']? = some s' → HasByte s' a y → k' = k
  padded : ∀ s ∈ out, ∀ a x, HasByte s a x → (∀ c ∈ codes, ∀ y, ¬ HasByte c a y) →
    x = paddingByte

/-- The segments leave no gap: with `max_gap = 0` no segment starts above the end of another, with
any other `max_gap` every segment but the lowest starts at or below the end of a lower one. -/
def GapFree (maxGap : ℕ) (codes : List CodeSegment) : Prop :=
  if maxGap = 0 then ∀ a ∈ codes, ∀ b ∈ codes, b.startAddress ≤ a.endAddress
  else ∀ b ∈ codes, (∃ a ∈ codes, a.startAddress < b.startAddress) →
    ∃ a ∈ codes, a.startAddress < b.startAddress ∧ b.startAddress ≤ a.endAddress

/-- An empty segment at the lowest address, behind one with data that ends at or above
`start_address + max_gap`: it gets a segment of its own in the result. -/
def Spare (maxGap : ℕ) (codes : List CodeSegment) : Prop :=
  ∃ n e : CodeSegment, [n, e].Sublist codes ∧ n.data ≠ [] ∧ e.data = [] ∧
    e.startAddress = n.startAddress ∧ (∀ a ∈ codes, n.startAddress ≤ a.startAddress) ∧
      saturatingAdd n.startAddress maxGap ≤ n.endAddress

/-- No padding is needed.  At the last address the comparison saturates: an empty segment there
does not fit behind the data that ends there, and is put to the empty one at the lowest
address. -/
def NoPadding (maxGap : ℕ) (codes : List CodeSegment) : Prop :=
  GapFree maxGap codes ∧
    ¬ (maxGap ≠ 0 ∧ Spare maxGap codes ∧ ∃ c ∈ codes, c.startAddress = 2 ^ 64 - 1)

/-! ## One segment of the result -/

/-- What holds of a segment of the result at any time: its end is not behind its start nor
beyond its data, and a segment that has grown ends no higher than some code put into it. -/
structure SegmentOk (done : List CodeSegment) (s : CodeSegment) : Prop where
  start_le : s.startAddress ≤ s.endAddress
  end_le : s.endAddress ≤ s.startAddress + s.data.length
  grown : s.startAddress < s.endAddress →
    ∃ d ∈ done, d.data ≠ [] ∧ s.startAddress ≤ d.startAddress ∧ s.endAddress ≤ d.endAddress

/-- The next code of the sorted list, with what is known of the ones before it. -/
structure NextCode (done : List CodeSegment) (c : CodeSegment) : Prop where
  wellFormed : ∀ d ∈ done, WellFormed d
  code : WellFormed c
  sorted : ∀ d ∈ done, d.startAddress ≤ c.startAddress
  disjoint : ∀ d ∈ done, DisjointSegments d c

theorem hasByte_start (h : c.data ≠ []) : ∃ x, HasByte c c.startAddress x :=
  exists_placedAt le_rfl (by have := List.length_pos_iff.mpr h; omega)

section OneSegment

variable {done : List CodeSegment} {c s : CodeSegment} {paddingByte : UInt8}

@[simp] theorem padAndAppend_start :
    (padAndAppend paddingByte c s).startAddress = s.startAddress := rfl

theorem padAndAppend_data : (padAndAppend paddingByte c s).data =
    s.data ++ List.replicate (c.startAddress - s.endAddress) paddingByte ++ c.data := rfl

/-- A code with data starts at or above the end of those before it. -/
theorem NextCode.end_le (hnext : NextCode done c) (hd : d ∈ done) (hdata : c.data ≠ []) :
    d.endAddress ≤ c.startAddress := by
  by_contra hlt
  have hend := (hnext.wellFormed d hd).1
  obtain ⟨x, hx⟩ := exists_placedAt (hnext.sorted d hd) (show c.startAddress <
    d.startAddress + d.data.length by omega)
  obtain ⟨y, hy⟩ := hasByte_start hdata
  exact hnext.disjoint d hd _ x y hx hy

/-- A code in a segment of its own. -/
theorem padAndAppend_new_end (paddingByte : UInt8) (hcode : WellFormed c) :
    (padAndAppend paddingByte c (CodeSegment.new c.startAddress)).endAddress = c.endAddress := by
  rw [hcode.1]
  exact Nat.mod_eq_of_lt (hcode.1 ▸ hcode.2)

/-- A fresh segment. -/
theorem segmentOk_new (a : ℕ) : SegmentOk done (CodeSegment.new a) := by
  refine ⟨le_rfl, ?_, ?_⟩
  · simp [CodeSegment.new]
  · intro h
    exact absurd h (lt_irrefl a)

theorem SegmentOk.mono {more : List CodeSegment} (hs : SegmentOk done s) :
    SegmentOk (done ++ more) s := by
  refine ⟨hs.start_le, hs.end_le, fun h => ?_⟩
  obtain ⟨d, hd, hrest⟩ := hs.grown h
  exact ⟨d, List.mem_append_left _ hd, hrest⟩

/-- The end address is behind the data. -/
def Lagging (s : CodeSegment) : Prop := s.endAddress < s.startAddress + s.data.length

theorem SegmentOk.end_eq (hs : SegmentOk done s) (hstep : ¬ Lagging s) :
    s.endAddress = s.startAddress + s.data.length :=
  le_antisymm hs.end_le (not_lt.mp hstep)

variable (hs : SegmentOk done s) (hnext : NextCode done c) (hle : s.startAddress ≤ c.startAddress)
include hs hnext hle

/-- A code with data that is put on a segment starts at or above its end. -/
theorem SegmentOk.end_le_start (hdata : c.data ≠ []) : s.endAddress ≤ c.startAddress := by
  by_cases hgrown : s.startAddress < s.endAddress
  · obtain ⟨d, hd, -, -, hde⟩ := hs.grown hgrown
    exact hde.trans (hnext.end_le hd hdata)
  · omega

/-- The end address moves by the length of the code, without overflow. -/
theorem padAndAppend_end (paddingByte : UInt8) :
    (padAndAppend paddingByte c s).endAddress = s.endAddress + c.data.length := by
  have hcode := hnext.code
  unfold WellFormed at hcode
  have hend : s.endAddress + c.data.length < 2 ^ 64 := by
    by_cases hdata : c.data = []
    · rw [hdata, List.length_nil, Nat.add_zero]
      by_cases hgrown : s.startAddress < s.endAddress
      · obtain ⟨d, hd, -, -, hde⟩ := hs.grown hgrown
        exact lt_of_le_of_lt hde (hnext.wellFormed d hd).2
      · omega
    · have := hs.end_le_start hnext hle hdata
      omega
  exact Nat.mod_eq_of_lt hend

/-- Putting a code on a segment keeps what holds of it. -/
theorem SegmentOk.padAndAppend : SegmentOk (done ++ [c]) (padAndAppend paddingByte c s) := by
  have hend := padAndAppend_end hs hnext hle paddingByte
  have hstart := hs.start_le
  have hlen := hs.end_le
  refine ⟨?_, ?_, ?_⟩
  · rw [hend, padAndAppend_start]
    omega
  · rw [hend, padAndAppend_data]
    simp only [padAndAppend_start, List.length_append, List.length_replicate]
    omega
  · intro hgrown
    rw [hend, padAndAppend_start] at *
    by_cases hdata : c.data = []
    · rw [hdata, List.length_nil, Nat.add_zero] at hgrown ⊢
      obtain ⟨d, hd, hrest⟩ := hs.grown hgrown
      exact ⟨d, List.mem_append_left _ hd, hrest⟩
    · have hbelow := hs.end_le_start hnext hle hdata
      have hcode := hnext.code.1
      exact ⟨c, by simp, hdata, hle, by omega⟩

/-- A padding byte makes a segment lag, and it lags ever after. -/
theorem lagging_padAndAppend (h : Lagging s ∨ s.endAddress < c.startAddress) :
    Lagging (padAndAppend paddingByte c s) := by
  have hlen := hs.end_le
  unfold Lagging at *
  rw [padAndAppend_end hs hnext hle paddingByte, padAndAppend_data]
  simp only [padAndAppend_start, List.length_append, List.length_replicate]
  omega

/-- Without padding, a segment in step stays in step and gets exactly the bytes of the code. -/
theorem hasByte_padAndAppend (paddingByte : UInt8) (hstep : ¬ Lagging s)
    (hno : c.startAddress ≤ s.endAddress) :
    ¬ Lagging (padAndAppend paddingByte c s) ∧
      ∀ a x, HasByte (padAndAppend paddingByte c s) a x ↔ HasByte s a x ∨ HasByte c a x := by
  have hlen := hs.end_le
  unfold Lagging at *
  have hdata : (padAndAppend paddingByte c s).data = s.data ++ c.data := by
    rw [padAndAppend_data, Nat.sub_eq_zero_of_le hno, List.replicate_zero, List.append_nil]
  refine ⟨?_, fun a x => ?_⟩
  · rw [padAndAppend_end hs hnext hle paddingByte, hdata, List.length_append, padAndAppend_start]
    omega
  · unfold HasByte
    rw [hdata, padAndAppend_start, placedAt_append]
    by_cases hc : c.data = []
    · simp [hc]
    · have hend := hs.end_le_start hnext hle hc
      rw [show s.startAddress + s.data.length = c.startAddress by omega]

end OneSegment

/-! ## The loop -/

/-- What holds of the result at any time, padded or not. -/
structure LoopOk (done ret : List CodeSegment) : Prop where
  segments : ∀ s ∈ ret, SegmentOk done s
  starts : ∀ s ∈ ret, ∃ d ∈ done, d.startAddress = s.startAddress

/-- What holds of the result as long as nothing has been padded. -/
structure Faithful (done ret : List CodeSegment) : Prop where
  inStep : ∀ s ∈ ret, ¬ Lagging s
  bytes : ∀ a x, (∃ s ∈ ret, HasByte s a x) ↔ ∃ d ∈ done, HasByte d a x
  apart : ret.Pairwise DisjointSegments

/-- The first segment that ends low enough takes the code, or a new one does. -/
theorem placeCode_eq (maxGap : ℕ) (paddingByte : UInt8) (c : CodeSegment)
    (ret : List CodeSegment) :
    ∃ pre s post, placeCode maxGap paddingByte c ret = pre ++ padAndAppend paddingByte c s :: post ∧
      (∀ t ∈ pre, saturatingAdd c.startAddress maxGap ≤ t.endAddress) ∧
      ((ret = pre ++ s :: post ∧ s.endAddress < saturatingAdd c.startAddress maxGap) ∨
        (ret = pre ∧ s = CodeSegment.new c.startAddress ∧ post = [])) := by
  induction ret with
  | nil => exact ⟨[], _, [], rfl, by simp, .inr ⟨rfl, rfl, rfl⟩⟩
  | cons t ret ih =>
    unfold placeCode
    by_cases hgt : saturatingAdd c.startAddress maxGap > t.endAddress
    · rw [if_pos hgt]
      exact ⟨[], t, ret, rfl, by simp, .inl ⟨rfl, hgt⟩⟩
    · rw [if_neg hgt]
      obtain ⟨pre, s, post, heq, hpre, hcase⟩ := ih
      refine ⟨t :: pre, s, post, by rw [heq, List.cons_append], ?_, ?_⟩
      · intro u hu
        rcases List.mem_cons.mp hu with rfl | hu
        · exact not_lt.mp hgt
        · exact hpre u hu
      · rcases hcase with ⟨hret, hs⟩ | ⟨hret, hs, hpost⟩
        · exact .inl ⟨by rw [hret, List.cons_append], hs⟩
        · exact .inr ⟨by rw [hret], hs, hpost⟩

/-- One round of the loop: which segment took the code, and that no segment has the start of
the code in its middle. -/
structure Round (maxGap : ℕ) (paddingByte : UInt8) (done ret : List CodeSegment)
    (c : CodeSegment) (ret' pre : List CodeSegment) (s : CodeSegment)
    (post : List CodeSegment) : Prop where
  result : ret' = pre ++ padAndAppend paddingByte c s :: post
  ok : SegmentOk done s
  start_le : s.startAddress ≤ c.startAddress
  notMiddle : ¬ s.isMiddleOf c.startAddress = true
  skipped : ∀ t ∈ pre, saturatingAdd c.startAddress maxGap ≤ t.endAddress
  noneMiddle : ∀ t ∈ ret, ¬ t.isMiddleOf c.startAddress = true
  source : (ret = pre ++ s :: post ∧ s.endAddress < saturatingAdd c.startAddress maxGap) ∨
    (ret = pre ∧ s = CodeSegment.new c.startAddress ∧ post = [])

section Rounds

variable {maxGap : ℕ} {paddingByte : UInt8} {done ret ret' pre post : List CodeSegment}
  {c s : CodeSegment}

/-- The codes are sorted, so the next one starts above the segments of the result. -/
theorem LoopOk.start_le (hloop : LoopOk done ret) (hnext : NextCode done c) (hs : s ∈ ret) :
    s.startAddress ≤ c.startAddress := by
  obtain ⟨d, hd, hds⟩ := hloop.starts s hs
  exact hds ▸ hnext.sorted d hd

theorem LoopOk.eq_nil (hloop : LoopOk [] ret) : ret = [] := by
  refine List.eq_nil_iff_forall_not_mem.mpr fun t ht => ?_
  obtain ⟨d, hd, -⟩ := hloop.starts t ht
  exact absurd hd List.not_mem_nil

/-- A step that does not fail is a round. -/
theorem concatStep_round (hloop : LoopOk done ret) (hnext : NextCode done c)
    (h : concatStep maxGap paddingByte ret c = .ok ret') :
    ∃ pre s post, Round maxGap paddingByte done ret c ret' pre s post := by
  unfold concatStep at h
  cases hfind : ret.find? fun segment => segment.isMiddleOf c.startAddress with
  | some t => simp [hfind] at h
  | none =>
    simp only [hfind, Except.ok.injEq] at h
    have hmid : ∀ t ∈ ret, ¬ t.isMiddleOf c.startAddress = true := by
      simpa [List.find?_eq_none] using hfind
    obtain ⟨pre, s, post, heq, hpre, hsource⟩ := placeCode_eq maxGap paddingByte c ret
    refine ⟨pre, s, post, h ▸ heq, ?_, ?_, ?_, hpre, hmid, hsource⟩
    · rcases hsource with ⟨rfl, -⟩ | ⟨-, rfl, -⟩
      · exact hloop.segments s (by simp)
      · exact segmentOk_new _
    · rcases hsource with ⟨rfl, -⟩ | ⟨-, rfl, -⟩
      · exact hloop.start_le hnext (by simp)
      · exact le_rfl
    · rcases hsource with ⟨rfl, -⟩ | ⟨-, rfl, -⟩
      · exact hmid s (by simp)
      · simp [CodeSegment.isMiddleOf, CodeSegment.new]

section OneRound

variable (r : Round maxGap paddingByte done ret c ret' pre s post)
include r

/-- The other segments of the result are the ones of before. -/
theorem Round.mem_ret (ht : t ∈ pre ∨ t ∈ post) : t ∈ ret := by
  rcases r.source with ⟨rfl, -⟩ | ⟨rfl, -, rfl⟩
  · rcases ht with ht | ht <;> simp [ht]
  · simpa using ht

theorem Round.mem_result (t : CodeSegment) :
    t ∈ ret' ↔ t = padAndAppend paddingByte c s ∨ t ∈ pre ∨ t ∈ post := by
  rw [r.result]
  simp only [List.mem_append, List.mem_cons]
  tauto

/-- The round keeps what always holds. -/
theorem LoopOk.round (hloop : LoopOk done ret) (hnext : NextCode done c) :
    LoopOk (done ++ [c]) ret' := by
  refine ⟨?_, ?_⟩
  · intro t ht
    rcases (r.mem_result t).mp ht with rfl | ht
    · exact r.ok.padAndAppend hnext r.start_le
    · exact (hloop.segments t (r.mem_ret ht)).mono
  · intro t ht
    rcases (r.mem_result t).mp ht with rfl | ht
    · rcases r.source with ⟨rfl, -⟩ | ⟨-, rfl, -⟩
      · obtain ⟨d, hd, hds⟩ := hloop.starts s (by simp)
        exact ⟨d, List.mem_append_left _ hd, hds⟩
      · exact ⟨c, by simp, rfl⟩
    · obtain ⟨d, hd, hds⟩ := hloop.starts t (r.mem_ret ht)
      exact ⟨d, List.mem_append_left _ hd, hds⟩

/-- The segments of before are the one that took the code, and the others. -/
theorem Round.mem_source (ht : t ∈ ret) : t = s ∨ t ∈ pre ∨ t ∈ post := by
  rcases r.source with ⟨rfl, -⟩ | ⟨rfl, -, -⟩
  · simpa [or_left_comm] using ht
  · exact .inr (.inl ht)

/-- A segment that lags lags in every later result. -/
theorem Round.lagging (hnext : NextCode done c)
    (hlag : (∃ t ∈ ret, Lagging t) ∨ s.endAddress < c.startAddress) : ∃ t ∈ ret', Lagging t := by
  have hthis : Lagging s ∨ s.endAddress < c.startAddress →
      ∃ t ∈ ret', Lagging t := by
    intro h
    exact ⟨_, (r.mem_result _).mpr (.inl rfl),
      lagging_padAndAppend r.ok hnext r.start_le h⟩
  rcases hlag with ⟨t, ht, hlag⟩ | hgap
  · rcases r.mem_source ht with rfl | ht
    · exact hthis (.inl hlag)
    · exact ⟨t, (r.mem_result t).mpr (.inr ht), hlag⟩
  · exact hthis (.inr hgap)

/-- The bytes of the result are the ones of before and those of the code, when the segment that
took the code got just these. -/
theorem Round.hasByte_iff
    (hbytes : ∀ a x, HasByte (padAndAppend paddingByte c s) a x ↔ HasByte s a x ∨ HasByte c a x)
    (a : ℕ) (x : UInt8) :
    (∃ t ∈ ret', HasByte t a x) ↔ (∃ t ∈ ret, HasByte t a x) ∨ HasByte c a x := by
  constructor
  · rintro ⟨t, ht, hx⟩
    rcases (r.mem_result t).mp ht with rfl | ht
    · rcases (hbytes a x).mp hx with hx | hx
      · rcases r.source with ⟨rfl, -⟩ | ⟨-, rfl, -⟩
        · exact .inl ⟨s, by simp, hx⟩
        · exact absurd hx (placedAt_nil _ _ _)
      · exact .inr hx
    · exact .inl ⟨t, r.mem_ret ht, hx⟩
  · have hput : HasByte s a x ∨ HasByte c a x → ∃ t ∈ ret', HasByte t a x := fun h =>
      ⟨_, (r.mem_result _).mpr (.inl rfl), (hbytes a x).mpr h⟩
    rintro (⟨t, ht, hx⟩ | hx)
    · rcases r.mem_source ht with rfl | ht
      · exact hput (.inl hx)
      · exact ⟨t, (r.mem_result t).mpr (.inr ht), hx⟩
    · exact hput (.inr hx)

/-- Then the segments stay apart. -/
theorem Round.apart
    (hbytes : ∀ a x, HasByte (padAndAppend paddingByte c s) a x ↔ HasByte s a x ∨ HasByte c a x)
    (hapart : ret.Pairwise DisjointSegments) (hcode : ∀ t ∈ ret, DisjointSegments t c) :
    ret'.Pairwise DisjointSegments := by
  rw [r.result]
  rcases r.source with ⟨rfl, -⟩ | ⟨rfl, rfl, rfl⟩
  · rw [List.pairwise_append, List.pairwise_cons] at hapart ⊢
    obtain ⟨hpre, ⟨hs, hpost⟩, hcross⟩ := hapart
    refine ⟨hpre, ⟨?_, hpost⟩, ?_⟩
    · intro t ht a x y hx hy
      rcases (hbytes a x).mp hx with hx | hx
      · exact hs t ht a x y hx hy
      · exact hcode t (by simp [ht]) a y x hy hx
    · intro t ht u hu a x y hx hy
      rcases List.mem_cons.mp hu with rfl | hu
      · rcases (hbytes a y).mp hy with hy | hy
        · exact hcross t ht s (by simp) a x y hx hy
        · exact hcode t (by simp [ht]) a x y hx hy
      · exact hcross t ht u (by simp [hu]) a x y hx hy
  · rw [List.pairwise_append]
    refine ⟨hapart, List.pairwise_singleton _ _, ?_⟩
    intro t ht u hu a x y hx hy
    rw [List.mem_singleton.mp hu] at hy
    rcases (hbytes a y).mp hy with hy | hy
    · exact placedAt_nil _ _ _ hy
    · exact hcode t ht a x y hx hy

/-- Without padding the bytes stay where they belong. -/
theorem Faithful.round (hfaith : Faithful done ret) (hnext : NextCode done c)
    (hno : c.startAddress ≤ s.endAddress) : Faithful (done ++ [c]) ret' := by
  have hlag : ¬ Lagging s := by
    rcases r.source with ⟨rfl, -⟩ | ⟨-, rfl, -⟩
    · exact hfaith.inStep s (by simp)
    · simp [Lagging, CodeSegment.new]
  obtain ⟨hstep, hbytes⟩ := hasByte_padAndAppend r.ok hnext r.start_le paddingByte hlag hno
  refine ⟨?_, ?_, r.apart hbytes hfaith.apart ?_⟩
  · intro t ht
    rcases (r.mem_result t).mp ht with rfl | ht
    · exact hstep
    · exact hfaith.inStep t (r.mem_ret ht)
  · intro a x
    rw [r.hasByte_iff hbytes, hfaith.bytes]
    simp only [List.mem_append, List.mem_singleton]
    constructor
    · rintro (⟨d, hd, hx⟩ | hx)
      · exact ⟨d, .inl hd, hx⟩
      · exact ⟨c, .inr rfl, hx⟩
    · rintro ⟨d, hd | rfl, hx⟩
      · exact .inl ⟨d, hd, hx⟩
      · exact .inr hx
  · -- the old segments are apart from the code as the codes before it are
    intro t ht a x y hx hy
    obtain ⟨d, hd, hdx⟩ := (hfaith.bytes a x).mp ⟨t, ht, hx⟩
    exact hnext.disjoint d hd a x y hdx hy

end OneRound

/-! ## When padding is needed -/

/-- The next code needs no padding after the ones before it. -/
def Adjoins (maxGap : ℕ) (done : List CodeSegment) (c : CodeSegment) : Prop :=
  if maxGap = 0 then ∀ a ∈ done, c.startAddress ≤ a.endAddress
  else (∃ a ∈ done, a.startAddress < c.startAddress) →
    ∃ a ∈ done, a.startAddress < c.startAddress ∧ c.startAddress ≤ a.endAddress

/-- The condition on all segments, one segment of the sorted list at a time. -/
theorem gapFree_concat (hnext : NextCode done c) :
    GapFree maxGap (done ++ [c]) ↔ GapFree maxGap done ∧ Adjoins maxGap done c := by
  have hc := hnext.code.1
  unfold GapFree Adjoins
  by_cases hgap : maxGap = 0
  · simp only [if_pos hgap]
    constructor
    · intro h
      exact ⟨fun a ha b hb => h a (by simp [ha]) b (by simp [hb]),
        fun a ha => h a (by simp [ha]) c (by simp)⟩
    · rintro ⟨hdone, hlast⟩ a ha b hb
      simp only [List.mem_append, List.mem_singleton] at ha hb
      rcases ha with ha | rfl <;> rcases hb with hb | rfl
      · exact hdone a ha b hb
      · exact hlast a ha
      · have := hnext.sorted b hb
        omega
      · omega
  · simp only [if_neg hgap]
    -- a segment below an earlier one is an earlier one
    have hearlier : ∀ a b : CodeSegment, a ∈ done ++ [c] → b.startAddress ≤ c.startAddress →
        a.startAddress < b.startAddress → a ∈ done := by
      intro a b ha hb hlt
      simp only [List.mem_append, List.mem_singleton] at ha
      rcases ha with ha | rfl
      · exact ha
      · omega
    constructor
    · intro h
      refine ⟨?_, ?_⟩
      · rintro b hb ⟨a, ha, hab⟩
        obtain ⟨a', ha', hlt, hle⟩ := h b (by simp [hb]) ⟨a, by simp [ha], hab⟩
        exact ⟨a', hearlier a' b ha' (hnext.sorted b hb) hlt, hlt, hle⟩
      · rintro ⟨a, ha, hac⟩
        obtain ⟨a', ha', hlt, hle⟩ := h c (by simp) ⟨a, by simp [ha], hac⟩
        exact ⟨a', hearlier a' c ha' le_rfl hlt, hlt, hle⟩
    · rintro ⟨hdone, hlast⟩ b hb ⟨a, ha, hab⟩
      simp only [List.mem_append, List.mem_singleton] at hb
      rcases hb with hb | rfl
      · obtain ⟨a', ha', hrest⟩ := hdone b hb ⟨a, hearlier a b ha (hnext.sorted b hb) hab, hab⟩
        exact ⟨a', List.mem_append_left _ ha', hrest⟩
      · obtain ⟨a', ha', hrest⟩ := hlast ⟨a, hearlier a b ha le_rfl hab, hab⟩
        exact ⟨a', List.mem_append_left _ ha', hrest⟩

theorem not_spare_of_length {codes : List CodeSegment} (h : codes.length < 2) :
    ¬ Spare maxGap codes := by
  rintro ⟨n, e, hsub, -⟩
  exact absurd hsub.length_le (not_le.mpr h)

/-- The last code makes a spare segment, or there has been one. -/
theorem spare_concat (hnext : NextCode done c) :
    Spare maxGap (done ++ [c]) ↔ Spare maxGap done ∨
      (c.data = [] ∧ ∃ n ∈ done, n.data ≠ [] ∧ c.startAddress = n.startAddress ∧
        (∀ a ∈ done, n.startAddress ≤ a.startAddress) ∧
          saturatingAdd n.startAddress maxGap ≤ n.endAddress) := by
  have hlowest : ∀ n ∈ done, (∀ a ∈ done, n.startAddress ≤ a.startAddress) →
      ∀ a ∈ done ++ [c], n.startAddress ≤ a.startAddress :=
    fun n hn hlow => forall_mem_concat.mpr ⟨hlow, hnext.sorted n hn⟩
  constructor
  · rintro ⟨n, e, hsub, hn, he, hstart, hlow, hsat⟩
    have hlow' : ∀ a ∈ done, n.startAddress ≤ a.startAddress :=
      fun a ha => hlow a (List.mem_append_left _ ha)
    obtain ⟨l₁, l₂, heq, h₁, h₂⟩ := List.sublist_append_iff.mp hsub
    rcases List.sublist_singleton.mp h₂ with rfl | rfl
    · rw [List.append_nil] at heq
      exact .inl ⟨n, e, heq ▸ h₁, hn, he, hstart, hlow', hsat⟩
    · have hlast : [n] ++ [e] = l₁ ++ [c] := heq
      obtain ⟨rfl, hec⟩ := List.append_inj' hlast rfl
      obtain rfl : e = c := List.singleton_inj.mp hec
      exact .inr ⟨he, n, List.singleton_sublist.mp h₁, hn, hstart, hlow', hsat⟩
  · rintro (⟨n, e, hsub, hn, he, hstart, hlow, hsat⟩ | ⟨he, n, hmem, hn, hstart, hlow, hsat⟩)
    · exact ⟨n, e, hsub.trans (List.sublist_append_left done [c]), hn, he, hstart,
        hlowest n (hsub.subset (by simp)) hlow, hsat⟩
    · exact ⟨n, c, (List.singleton_sublist.mpr hmem).append (List.Sublist.refl [c]), hn, he,
        hstart, hlowest n hmem hlow, hsat⟩

/-- The next code needs no padding after the ones before it, the last address included. -/
def Continues (maxGap : ℕ) (done : List CodeSegment) (c : CodeSegment) : Prop :=
  Adjoins maxGap done c ∧ ¬ (maxGap ≠ 0 ∧ Spare maxGap done ∧ c.startAddress = 2 ^ 64 - 1)

/-- Whether padding is needed, one segment of the sorted list at a time. -/
theorem noPadding_concat (hnext : NextCode done c) :
    NoPadding maxGap (done ++ [c]) ↔ NoPadding maxGap done ∧ Continues maxGap done c := by
  have htop : (maxGap ≠ 0 ∧ Spare maxGap (done ++ [c]) ∧
      ∃ d ∈ done ++ [c], d.startAddress = 2 ^ 64 - 1) ↔
        (maxGap ≠ 0 ∧ Spare maxGap done ∧ ∃ d ∈ done, d.startAddress = 2 ^ 64 - 1) ∨
          (maxGap ≠ 0 ∧ Spare maxGap done ∧ c.startAddress = 2 ^ 64 - 1) := by
    constructor
    · rintro ⟨hgap, hspare, d, hd, hlast⟩
      rcases (spare_concat hnext).mp hspare with hold | ⟨-, n, hn, hdata, hstart, -⟩
      · rcases List.mem_append.mp hd with hd | hd
        · exact .inl ⟨hgap, hold, d, hd, hlast⟩
        · exact .inr ⟨hgap, hold, List.mem_singleton.mp hd ▸ hlast⟩
      · -- the list is sorted, so the last address comes behind the lowest one
        have hle := forall_mem_concat.mpr ⟨hnext.sorted, le_rfl⟩ d hd
        have hpos := List.length_pos_iff.mpr hdata
        obtain ⟨hend, hlt⟩ := hnext.wellFormed n hn
        omega
    · rintro (⟨hgap, hspare, d, hd, hlast⟩ | ⟨hgap, hspare, hlast⟩)
      · exact ⟨hgap, (spare_concat hnext).mpr (.inl hspare), d, List.mem_append_left _ hd,
          hlast⟩
      · exact ⟨hgap, (spare_concat hnext).mpr (.inl hspare), c, by simp, hlast⟩
  unfold NoPadding Continues
  rw [gapFree_concat hnext, htop]
  constructor
  · rintro ⟨⟨hfree, hadj⟩, hnot⟩
    exact ⟨⟨hfree, fun h => hnot (.inl h)⟩, hadj, fun h => hnot (.inr h)⟩
  · rintro ⟨⟨hfree, hold⟩, hadj, hlast⟩
    exact ⟨⟨hfree, hadj⟩, fun h => h.elim hold hlast⟩

/-- The result with `max_gap > 0` as long as nothing has been padded: all data is in the first
segment, the others are empty and stand at its start or at the last address. -/
structure MainShape (maxGap : ℕ) (done : List CodeSegment) (main : CodeSegment)
    (rest : List CodeSegment) : Prop where
  restEnds : ∀ e ∈ rest, e.endAddress = main.startAddress ∨ e.endAddress = 2 ^ 64 - 1
  covers : ∀ d ∈ done, main.startAddress ≤ d.startAddress ∧ d.endAddress ≤ main.endAddress
  spare : (∃ e ∈ rest, e.endAddress < 2 ^ 64 - 1) ↔ Spare maxGap done

/-- The result as long as nothing has been padded.  With `max_gap = 0` every code has its own
segment. -/
def Shape (maxGap : ℕ) (done ret : List CodeSegment) : Prop :=
  if maxGap = 0 then
    (∀ d ∈ done, ∃ s ∈ ret, s.endAddress = d.endAddress) ∧
      ∀ s ∈ ret, ∃ d ∈ done, d.endAddress = s.endAddress
  else done ≠ [] → ∃ main rest, ret = main :: rest ∧ MainShape maxGap done main rest

/-- What a round comes to: the code continues the ones before it and is not padded, or it does
not and is padded. -/
def RoundEnd (maxGap : ℕ) (done : List CodeSegment) (c s : CodeSegment)
    (ret' : List CodeSegment) : Prop :=
  (Continues maxGap done c ∧ c.startAddress ≤ s.endAddress ∧ Shape maxGap (done ++ [c]) ret') ∨
    (¬ Continues maxGap done c ∧ s.endAddress < c.startAddress)

/-- With `max_gap = 0` a segment that ends below the code is padded, and one that ends where
the code starts is not used. -/
theorem roundEnd_zero (hnext : NextCode done c)
    (r : Round 0 paddingByte done ret c ret' pre s post) (hshape : Shape 0 done ret) :
    RoundEnd 0 done c s ret' := by
  obtain ⟨hcode, hlast⟩ := hnext.code
  have hnew := padAndAppend_new_end paddingByte hnext.code
  have hsat : saturatingAdd c.startAddress 0 = c.startAddress := by
    unfold saturatingAdd
    omega
  have hskipped := r.skipped
  have hsource := r.source
  rw [hsat] at hskipped hsource
  simp only [RoundEnd, Continues, Adjoins, Shape, if_true, ne_eq, not_true_eq_false, false_and,
    not_false_eq_true, and_true] at hshape ⊢
  obtain ⟨hdone, hret⟩ := hshape
  rcases hsource with ⟨rfl, hlt⟩ | ⟨rfl, rfl, rfl⟩
  · right
    obtain ⟨d, hd, hds⟩ := hret s (by simp)
    refine ⟨fun h => ?_, hlt⟩
    have := h d hd
    omega
  · left
    refine ⟨?_, le_rfl, ?_, ?_⟩
    · intro a ha
      obtain ⟨t, ht, hta⟩ := hdone a ha
      exact hta ▸ hskipped t ht
    · intro d hd
      rw [r.result]
      simp only [List.mem_append, List.mem_singleton] at hd
      rcases hd with hd | rfl
      · obtain ⟨t, ht, htd⟩ := hdone d hd
        exact ⟨t, by simp [ht], htd⟩
      · exact ⟨_, by simp, hnew⟩
    · intro t ht
      rcases (r.mem_result t).mp ht with rfl | ht
      · exact ⟨c, by simp, hnew.symm⟩
      · obtain ⟨d, hd, hdt⟩ := hret t (r.mem_ret ht)
        exact ⟨d, by simp [hd], hdt⟩

/-- With any other `max_gap` the first code opens the first segment. -/
theorem roundEnd_first (hgap : maxGap ≠ 0) (hloop : LoopOk [] ret) (hnext : NextCode [] c)
    (r : Round maxGap paddingByte [] ret c ret' pre s post) : RoundEnd maxGap [] c s ret' := by
  obtain rfl := hloop.eq_nil
  rcases r.source with ⟨habs, -⟩ | ⟨hpre, rfl, rfl⟩
  · simp at habs
  · left
    refine ⟨⟨by simp [Adjoins, hgap], fun h => not_spare_of_length (by simp) h.2.1⟩, le_rfl, ?_⟩
    unfold Shape
    rw [if_neg hgap]
    refine fun _ => ⟨_, [], by rw [r.result, ← hpre]; rfl, by simp, ?_, ?_⟩
    · intro d hd
      simp only [List.nil_append, List.mem_singleton] at hd
      subst hd
      exact ⟨le_rfl, (padAndAppend_new_end paddingByte hnext.code).ge⟩
    · simp [not_spare_of_length]

theorem LoopOk.end_lt (hloop : LoopOk done ret) (hnext : NextCode done c) (ht : t ∈ ret) :
    t.endAddress < 2 ^ 64 := by
  by_cases hgrown : t.startAddress < t.endAddress
  · obtain ⟨d, hd, -, -, hde⟩ := (hloop.segments t ht).grown hgrown
    exact lt_of_le_of_lt hde (hnext.wellFormed d hd).2
  · obtain ⟨d, hd, hstart⟩ := hloop.starts t ht
    obtain ⟨hend, hlt⟩ := hnext.wellFormed d hd
    omega

section Main

variable {main : CodeSegment} {rest : List CodeSegment}

/-- The segments behind the first one, when the first one is passed over. -/
theorem Round.rest_eq
    (r : Round maxGap paddingByte done (main :: rest) c ret' (main :: pre') s post) :
    (rest = pre' ++ s :: post ∧ s.endAddress < saturatingAdd c.startAddress maxGap) ∨
      (rest = pre' ∧ s = CodeSegment.new c.startAddress ∧ post = []) := by
  rcases r.source with ⟨heq, hlt⟩ | ⟨heq, hnew⟩
  · exact .inl ⟨List.tail_eq_of_cons_eq heq, hlt⟩
  · exact .inr ⟨List.tail_eq_of_cons_eq heq, hnew⟩

theorem Round.head_eq (r : Round maxGap paddingByte done (main :: rest) c ret' (t :: pre') s post) :
    main = t := by
  rcases r.source with ⟨heq, -⟩ | ⟨heq, -⟩
  · exact (List.cons.inj heq).1
  · exact (List.cons.inj heq).1

/-! The first segment of the result holds the data, and the next code comes. -/

variable (hgap : maxGap ≠ 0) (hloop : LoopOk done (main :: rest))
  (hshape : MainShape maxGap done main rest)
include hgap hloop hshape

theorem not_adjoins_of_lt (hlt : main.endAddress < c.startAddress) :
    ¬ Adjoins maxGap done c := by
  obtain ⟨d, hd, hstart⟩ := hloop.starts main (by simp)
  have hlow := (hloop.segments main (by simp)).start_le
  intro h
  unfold Adjoins at h
  rw [if_neg hgap] at h
  obtain ⟨a, ha, -, hle⟩ := h ⟨d, hd, by omega⟩
  have := (hshape.covers a ha).2
  omega

variable (hfaith : Faithful done (main :: rest)) (hnext : NextCode done c)
include hfaith hnext

/-- A code that starts where the first segment ends, or at its start, needs no padding. -/
theorem adjoins_of_le
    (hmid : ¬ (main.startAddress < c.startAddress ∧ c.startAddress < main.endAddress))
    (hle : c.startAddress ≤ main.endAddress) : Adjoins maxGap done c := by
  unfold Adjoins
  rw [if_neg hgap]
  rintro ⟨a, ha, hac⟩
  have hma := (hshape.covers a ha).1
  -- the code starts at the end of `main`, whose last byte some earlier code brought
  have hin := (hloop.segments main (by simp)).end_eq (hfaith.inStep main (by simp))
  obtain ⟨x, hx⟩ : ∃ x, HasByte main (main.endAddress - 1) x :=
    exists_placedAt (by omega) (by omega)
  obtain ⟨d, hd, hdx⟩ := (hfaith.bytes _ x).mp ⟨main, by simp, hx⟩
  have hb := PlacedAt.bounds hdx
  have hdw := (hnext.wellFormed d hd).1
  exact ⟨d, hd, by omega, by omega⟩

/-- The first segment takes the code, over any gap. -/
theorem roundEnd_main (r : Round maxGap paddingByte done (main :: rest) c ret' [] main rest)
    (htakes : main.endAddress < saturatingAdd c.startAddress maxGap) :
    RoundEnd maxGap done c main ret' := by
  have hend := padAndAppend_end r.ok hnext r.start_le paddingByte
  have hcode := hnext.code.1
  have hmid : ¬ (main.startAddress < c.startAddress ∧ c.startAddress < main.endAddress) := by
    simpa [CodeSegment.isMiddleOf] using r.notMiddle
  by_cases hlt : main.endAddress < c.startAddress
  · exact .inr ⟨fun h => not_adjoins_of_lt hgap hloop hshape hlt h.1, hlt⟩
  · have hbelow : main.endAddress < 2 ^ 64 - 1 := lt_of_lt_of_le htakes (min_le_right _ _)
    refine .inl ⟨⟨adjoins_of_le hgap hloop hshape hfaith hnext hmid (not_lt.mp hlt), ?_⟩,
      not_lt.mp hlt, ?_⟩
    · rintro ⟨-, -, hlast⟩
      omega
    · unfold Shape
      rw [if_neg hgap]
      refine fun _ => ⟨_, rest, r.result, hshape.restEnds, ?_, ?_⟩
      · rw [forall_mem_concat, hend, padAndAppend_start]
        refine ⟨fun d hd => ?_, r.start_le, by omega⟩
        have := hshape.covers d hd
        omega
      · rw [hshape.spare, spare_concat hnext]
        constructor
        · exact .inl
        · rintro (h | ⟨-, n, hn, -, hstart, -, hsat⟩)
          · exact h
          · have := (hshape.covers n hn).2
            rw [hstart] at htakes
            omega

variable {pre' : List CodeSegment}
  (r : Round maxGap paddingByte done (main :: rest) c ret' (main :: pre') s post)
include r

/-- The first segment is passed over by an empty code at its start. -/
theorem roundEnd_inside (hinside : c.startAddress < main.endAddress) :
    RoundEnd maxGap done c s ret' := by
  have hend := padAndAppend_end r.ok hnext r.start_le paddingByte
  have hcode := hnext.code.1
  have hskip := r.skipped main (by simp)
  have hlast := hloop.end_lt hnext (List.mem_cons_self (a := main) (l := rest))
  have hmid : ¬ (main.startAddress < c.startAddress ∧ c.startAddress < main.endAddress) := by
    have := r.noneMiddle main (by simp)
    simpa [CodeSegment.isMiddleOf] using this
  have hle := hloop.start_le hnext (s := main) (by simp)
  have heq : c.startAddress = main.startAddress := by omega
  -- a code with data would collide with the first byte of `main`
  have hdata : c.data = [] := by
    by_contra hne
    have := (hloop.segments main (by simp)).end_le_start hnext hle hne
    omega
  have hlen : c.data.length = 0 := by rw [hdata, List.length_nil]
  have hrest : ∀ {e}, e ∈ pre' ∨ e ∈ post → e ∈ rest := by
    intro e he
    rcases r.rest_eq with ⟨rfl, -⟩ | ⟨rfl, -, rfl⟩
    · rcases he with he | he <;> simp [he]
    · simpa using he
  have hsend : s.endAddress = main.startAddress := by
    rcases r.rest_eq with ⟨hrest, hlt⟩ | ⟨-, rfl, -⟩
    · have hsat : saturatingAdd c.startAddress maxGap ≤ 2 ^ 64 - 1 := min_le_right _ _
      exact (hshape.restEnds s (by simp [hrest])).resolve_right (by omega)
    · exact heq
  have hspare : Spare maxGap (done ++ [c]) := by
    obtain ⟨d, hd, hne, hlow, hde⟩ := (hloop.segments main (by simp)).grown (by omega)
    have hstart : c.startAddress = d.startAddress := by
      have := hnext.sorted d hd
      omega
    refine (spare_concat hnext).mpr (.inr ⟨hdata, d, hd, hne, hstart, fun a ha => ?_, ?_⟩)
    · have := (hshape.covers a ha).1
      omega
    · rw [← hstart]
      omega
  refine .inl ⟨⟨adjoins_of_le hgap hloop hshape hfaith hnext hmid hinside.le, ?_⟩, by omega, ?_⟩
  · rintro ⟨-, -, htop⟩
    omega
  · unfold Shape
    rw [if_neg hgap]
    refine fun _ => ⟨main, pre' ++ padAndAppend paddingByte c s :: post, r.result, ?_, ?_, ?_⟩
    · intro e he
      rcases List.mem_append.mp he with he | he
      · exact hshape.restEnds e (hrest (.inl he))
      · rcases List.mem_cons.mp he with rfl | he
        · exact .inl (by omega)
        · exact hshape.restEnds e (hrest (.inr he))
    · exact forall_mem_concat.mpr ⟨hshape.covers, by omega⟩
    · exact iff_of_true ⟨padAndAppend paddingByte c s, by simp, by omega⟩ hspare

/-- The first segment ends at the last address and is passed over by an empty code there.  A
spare segment is padded up to it. -/
theorem roundEnd_top (houtside : main.endAddress ≤ c.startAddress) :
    RoundEnd maxGap done c s ret' := by
  obtain ⟨hcode, hlast⟩ := hnext.code
  have hskip := r.skipped main (by simp)
  have htop : c.startAddress = 2 ^ 64 - 1 ∧ saturatingAdd c.startAddress maxGap = 2 ^ 64 - 1 ∧
      main.endAddress = 2 ^ 64 - 1 := by
    unfold saturatingAdd at hskip ⊢
    omega
  obtain ⟨hstart, hsat, hmain⟩ := htop
  have hmid : ¬ (main.startAddress < c.startAddress ∧ c.startAddress < main.endAddress) := by
    omega
  rcases r.rest_eq with ⟨hrest, hlt⟩ | ⟨hrest, rfl, rfl⟩
  · rw [hsat] at hlt
    have hspare : Spare maxGap done := hshape.spare.mp ⟨s, by simp [hrest], hlt⟩
    exact .inr ⟨fun h => h.2 ⟨hgap, hspare, hstart⟩, by omega⟩
  · have hnone : ¬ ∃ e ∈ rest, e.endAddress < 2 ^ 64 - 1 := by
      rintro ⟨e, he, hlt⟩
      have := r.skipped e (by simp [← hrest, he])
      omega
    have hspare : ¬ Spare maxGap done := fun h => hnone (hshape.spare.mpr h)
    have hnew := padAndAppend_new_end paddingByte hnext.code
    refine .inl ⟨⟨adjoins_of_le hgap hloop hshape hfaith hnext hmid (by omega),
      fun h => hspare h.2.1⟩, le_rfl, ?_⟩
    unfold Shape
    rw [if_neg hgap]
    refine fun _ => ⟨main, rest ++ [padAndAppend paddingByte c (CodeSegment.new c.startAddress)],
      by rw [r.result, hrest]; rfl, ?_, ?_, ?_⟩
    · exact forall_mem_concat.mpr ⟨hshape.restEnds, .inr (by omega)⟩
    · have := (hloop.segments main (by simp)).start_le
      exact forall_mem_concat.mpr ⟨hshape.covers, by omega⟩
    · apply iff_of_false
      · rintro ⟨e, he, hlt⟩
        rcases List.mem_append.mp he with he | he
        · exact hnone ⟨e, he, hlt⟩
        · rw [List.mem_singleton.mp he] at hlt
          omega
      · intro h
        rcases (spare_concat hnext).mp h with h | ⟨-, n, hn, hne, heq, -⟩
        · exact hspare h
        · have hpos := List.length_pos_iff.mpr hne
          obtain ⟨hnend, hnlt⟩ := hnext.wellFormed n hn
          omega

end Main

/-- A round with `max_gap > 0`. -/
theorem roundEnd_pos (hgap : maxGap ≠ 0) (hloop : LoopOk done ret) (hfaith : Faithful done ret)
    (hnext : NextCode done c) (r : Round maxGap paddingByte done ret c ret' pre s post)
    (hshape : Shape maxGap done ret) : RoundEnd maxGap done c s ret' := by
  by_cases hnil : done = []
  · subst hnil
    exact roundEnd_first hgap hloop hnext r
  · unfold Shape at hshape
    rw [if_neg hgap] at hshape
    obtain ⟨main, rest, rfl, hmain⟩ := hshape hnil
    cases pre with
    | nil =>
      rcases r.source with ⟨heq, htakes⟩ | ⟨heq, -, -⟩
      · obtain ⟨rfl, rfl⟩ := List.cons.inj heq
        exact roundEnd_main hgap hloop hmain hfaith hnext r htakes
      · simp at heq
    | cons t pre' =>
      obtain rfl := r.head_eq
      rcases Nat.lt_or_ge c.startAddress main.endAddress with hin | hout
      · exact roundEnd_inside hgap hloop hmain hfaith hnext r hin
      · exact roundEnd_top hgap hloop hmain hfaith hnext r hout

end Rounds

/-! ## The whole run -/

section Runs

variable {codes : List CodeSegment} {maxGap : ℕ} {paddingByte : UInt8}

/-- The list as the loop sees it: sorted, well formed and pairwise disjoint. -/
theorem nextCode_of_split {done rest : List CodeSegment} (hwf : ∀ d ∈ sorted, WellFormed d)
    (hdis : sorted.Pairwise DisjointSegments)
    (hsorted : sorted.Pairwise fun a b => a.startAddress ≤ b.startAddress)
    (hsplit : sorted = done ++ c :: rest) : NextCode done c := by
  subst hsplit
  rw [List.pairwise_append] at hdis hsorted
  exact ⟨fun d hd => hwf d (by simp [hd]), hwf c (by simp),
    fun d hd => hsorted.2.2 d hd c (by simp), fun d hd => hdis.2.2 d hd c (by simp)⟩

/-- After any number of rounds the result is faithful or has a segment that lags, and which of
the two it is can be read off the codes. -/
theorem concatLoop_result (hwf : ∀ d ∈ sorted, WellFormed d)
    (hdis : sorted.Pairwise DisjointSegments)
    (hsorted : sorted.Pairwise fun a b => a.startAddress ≤ b.startAddress)
    (hok : sorted.foldlM (concatStep maxGap paddingByte) [] = .ok ret) :
    LoopOk sorted ret ∧ ((Faithful sorted ret ∧ NoPadding maxGap sorted) ∨
      ((∃ t ∈ ret, Lagging t) ∧ ¬ NoPadding maxGap sorted)) := by
  have key := foldlM_invariant (concatStep maxGap paddingByte)
    (fun done ret => LoopOk done ret ∧
      ((Faithful done ret ∧ Shape maxGap done ret ∧ NoPadding maxGap done) ∨
        ((∃ t ∈ ret, Lagging t) ∧ ¬ NoPadding maxGap done)))
    sorted [] ret ?init ?step hok
  · obtain ⟨hloop, ⟨hfaith, -, hno⟩ | hlag⟩ := key
    · exact ⟨hloop, .inl ⟨hfaith, hno⟩⟩
    · exact ⟨hloop, .inr hlag⟩
  case init =>
    have hfaith : Faithful [] [] := ⟨by simp, by simp, List.Pairwise.nil⟩
    refine ⟨⟨by simp, by simp⟩, .inl ⟨hfaith, ?_, ?_, by simp⟩⟩
    · unfold Shape
      split <;> simp
    · unfold GapFree
      split <;> simp
  case step =>
    rintro done c rest ret ret' hsplit ⟨hloop, hcase⟩ hstep
    have hnext := nextCode_of_split hwf hdis hsorted hsplit
    obtain ⟨pre, s, post, r⟩ := concatStep_round hloop hnext hstep
    refine ⟨hloop.round r hnext, ?_⟩
    rw [noPadding_concat hnext]
    rcases hcase with ⟨hfaith, hshape, hno⟩ | ⟨hlag, hnot⟩
    · have hround : RoundEnd maxGap done c s ret' := by
        by_cases hgap : maxGap = 0
        · subst hgap
          exact roundEnd_zero hnext r hshape
        · exact roundEnd_pos hgap hloop hfaith hnext r hshape
      rcases hround with ⟨hcont, hle, hshape'⟩ | ⟨hcont, hgap⟩
      · exact .inl ⟨hfaith.round r hnext hle, hshape', hno, hcont⟩
      · exact .inr ⟨r.lagging hnext (.inr hgap), fun h => hcont h.2⟩
    · exact .inr ⟨r.lagging hnext (.inl hlag), fun h => hnot h.1⟩

/-- A faithful result keeps the bytes, with the writing of its segments ended. -/
theorem keepsBytes_of_faithful (paddingByte : UInt8) (hloop : LoopOk codes ret)
    (hfaith : Faithful codes ret) :
    KeepsBytes codes paddingByte (ret.map CodeSegment.endCodeWrite) := by
  refine ⟨?_, ?_, ?_⟩
  · intro s hs
    obtain ⟨t, ht, rfl⟩ := List.mem_map.mp hs
    exact (hloop.segments t ht).end_eq (hfaith.inStep t ht)
  · intro c hc a x hx
    obtain ⟨s, hs, hsx⟩ := (hfaith.bytes a x).mpr ⟨c, hc, hx⟩
    obtain ⟨k, hk, hget⟩ := List.getElem_of_mem hs
    refine ⟨k, s.endCodeWrite, by simp [hk, hget], hsx, ?_⟩
    intro k' s' y hk' hy
    rw [List.getElem?_map, Option.map_eq_some_iff] at hk'
    obtain ⟨t, ht, rfl⟩ := hk'
    obtain ⟨hlt, htk⟩ := List.getElem?_eq_some_iff.mp ht
    -- two different segments have no address in common
    have hpair := List.pairwise_iff_getElem.mp hfaith.apart
    rcases lt_trichotomy k' k with h | h | h
    · exact absurd (hget ▸ hsx) (hpair k' k hlt hk h a y x (htk ▸ hy))
    · exact h
    · exact absurd (htk ▸ hy) (hpair k k' hk hlt h a x y (hget ▸ hsx))
  · intro s hs a x hx hnone
    obtain ⟨t, ht, rfl⟩ := List.mem_map.mp hs
    obtain ⟨d, hd, hdx⟩ := (hfaith.bytes a x).mp ⟨t, ht, hx⟩
    exact absurd hdx (hnone d hd x)

theorem not_keepsBytes_of_lagging (paddingByte : UInt8) (hlag : ∃ t ∈ ret, Lagging t) :
    ¬ KeepsBytes codes paddingByte (ret.map CodeSegment.endCodeWrite) := by
  obtain ⟨t, ht, hlag⟩ := hlag
  intro h
  have hin := h.inStep t.endCodeWrite (List.mem_map_of_mem ht)
  exact absurd hin (ne_of_lt hlag)

/-- Fewer than two segments are returned as they are. -/
theorem keepsBytes_self (maxGap : ℕ) (paddingByte : UInt8) (hwf : ∀ c ∈ codes, WellFormed c)
    (hlen : codes.length < 2) :
    KeepsBytes codes paddingByte codes ∧ NoPadding maxGap codes := by
  have hone : ∀ (k k' : ℕ) (s s' : CodeSegment), codes[k]? = some s → codes[k']? = some s' →
      k' = k := by
    intro k k' s s' hk hk'
    have h₁ := (List.getElem?_eq_some_iff.mp hk).1
    have h₂ := (List.getElem?_eq_some_iff.mp hk').1
    omega
  refine ⟨⟨fun s hs => (hwf s hs).1, ?_, ?_⟩, ?_, ?_⟩
  · intro c hc a x hx
    obtain ⟨k, hk, hget⟩ := List.getElem_of_mem hc
    have hget' : codes[k]? = some c := List.getElem?_eq_some_iff.mpr ⟨hk, hget⟩
    exact ⟨k, c, hget', hx, fun k' s' y hk' _ => hone k k' c s' hget' hk'⟩
  · intro s hs a x hx hnone
    exact absurd hx (hnone s hs x)
  · have hsame : ∀ a ∈ codes, ∀ b ∈ codes, a = b := by
      intro a ha b hb
      obtain ⟨k, hk, rfl⟩ := List.getElem_of_mem ha
      obtain ⟨k', hk', rfl⟩ := List.getElem_of_mem hb
      have : k = k' := by omega
      subst this
      rfl
    unfold GapFree
    split
    · intro a ha b hb
      have := (hwf a ha).1
      rw [hsame b hb a ha]
      omega
    · rintro b hb ⟨a, ha, hab⟩
      rw [hsame a ha b hb] at hab
      exact absurd hab (lt_irrefl _)
  · exact fun h => not_spare_of_length hlen h.2.1

end Runs

/-! ## Sorting -/

section Sorting

variable {codes out : List CodeSegment} {maxGap : ℕ} {paddingByte : UInt8}

/-- The codes in the order in which `concat_segments` takes them. -/
def inOrder (codes : List CodeSegment) : List CodeSegment :=
  codes.insertionSort fun a b => a.startAddress ≤ b.startAddress

theorem mem_inOrder : c ∈ inOrder codes ↔ c ∈ codes := List.mem_insertionSort _

/-- A segment is put before the ones with its own start. -/
theorem filter_orderedInsert (c : CodeSegment) (l : List CodeSegment) (a : ℕ) :
    (l.orderedInsert (fun a b => a.startAddress ≤ b.startAddress) c).filter
        (fun d => decide (d.startAddress = a)) =
      (c :: l).filter fun d => decide (d.startAddress = a) := by
  induction l with
  | nil => rfl
  | cons d l ih =>
    rw [List.orderedInsert]
    split
    · rfl
    next hlt =>
      rw [List.filter_cons, ih]
      by_cases hd : d.startAddress = a
      · have hc : ¬ c.startAddress = a := by omega
        simp [hd, hc]
      · simp [hd, List.filter_cons]

/-- The sort is stable: the segments with one start keep their order. -/
theorem filter_inOrder (codes : List CodeSegment) (a : ℕ) :
    (inOrder codes).filter (fun d => decide (d.startAddress = a)) =
      codes.filter fun d => decide (d.startAddress = a) := by
  induction codes with
  | nil => rfl
  | cons c codes ih =>
    rw [inOrder, List.insertionSort_cons, filter_orderedInsert, List.filter_cons,
      List.filter_cons, ← ih, inOrder]

/-- Sorting is stable, so it keeps a spare segment. -/
theorem spare_inOrder : Spare maxGap (inOrder codes) ↔ Spare maxGap codes := by
  -- a pair with one start is in the list when it is among the segments with that start
  have hpair : ∀ (l : List CodeSegment) (n e : CodeSegment), e.startAddress = n.startAddress →
      ([n, e].Sublist l ↔
        [n, e].Sublist (l.filter fun d => decide (d.startAddress = n.startAddress))) := by
    intro l n e he
    constructor
    · intro h
      have hfilter := h.filter fun d => decide (d.startAddress = n.startAddress)
      simpa [List.filter_cons, he] using hfilter
    · intro h
      exact h.trans List.filter_sublist
  have hsub : ∀ n e : CodeSegment, e.startAddress = n.startAddress →
      ([n, e].Sublist (inOrder codes) ↔ [n, e].Sublist codes) := by
    intro n e he
    rw [hpair _ n e he, filter_inOrder, ← hpair _ n e he]
  unfold Spare
  constructor
  · rintro ⟨n, e, h, hn, he, hstart, hlow, hsat⟩
    exact ⟨n, e, (hsub n e hstart).mp h, hn, he, hstart,
      fun a ha => hlow a (mem_inOrder.mpr ha), hsat⟩
  · rintro ⟨n, e, h, hn, he, hstart, hlow, hsat⟩
    exact ⟨n, e, (hsub n e hstart).mpr h, hn, he, hstart,
      fun a ha => hlow a (mem_inOrder.mp ha), hsat⟩

/-- What is asked of the codes does not depend on their order. -/
theorem noPadding_inOrder : NoPadding maxGap (inOrder codes) ↔ NoPadding maxGap codes := by
  unfold NoPadding GapFree
  rw [spare_inOrder]
  simp only [mem_inOrder]

theorem keepsBytes_inOrder :
    KeepsBytes (inOrder codes) paddingByte out ↔ KeepsBytes codes paddingByte out := by
  constructor
  · rintro ⟨h₁, h₂, h₃⟩
    exact ⟨h₁, fun c hc => h₂ c (mem_inOrder.mpr hc),
      fun s hs a x hx hnone => h₃ s hs a x hx fun c hc => hnone c (mem_inOrder.mp hc)⟩
  · rintro ⟨h₁, h₂, h₃⟩
    exact ⟨h₁, fun c hc => h₂ c (mem_inOrder.mp hc),
      fun s hs a x hx hnone => h₃ s hs a x hx fun c hc => hnone c (mem_inOrder.mpr hc)⟩

/-- Sorting the codes keeps what is known of them. -/
theorem inOrder_ok (hwf : ∀ c ∈ codes, WellFormed c)
    (hdis : codes.Pairwise DisjointSegments) :
    (∀ c ∈ inOrder codes, WellFormed c) ∧ (inOrder codes).Pairwise DisjointSegments ∧
      (inOrder codes).Pairwise fun a b => a.startAddress ≤ b.startAddress :=
  ⟨fun c hc => hwf c (mem_inOrder.mp hc),
    ((List.perm_insertionSort _ _).pairwise_iff fun h a x y hx hy => h a y x hy hx).mpr hdis,
    List.pairwise_insertionSort _ codes⟩

/-- The result is that of the loop over the codes in order. -/
theorem concatSegments_loop (h2 : 2 ≤ codes.length)
    (hok : concatSegments codes maxGap paddingByte = .ok out) :
    ∃ ret, (inOrder codes).foldlM (concatStep maxGap paddingByte) [] = .ok ret ∧
      out = ret.map CodeSegment.endCodeWrite := by
  rw [concatSegments, if_neg (by omega)] at hok
  cases hfold : (inOrder codes).foldlM (concatStep maxGap paddingByte) [] with
  | error e =>
    rw [inOrder] at hfold
    simp [hfold, bind, Except.bind] at hok
  | ok ret =>
    rw [inOrder] at hfold
    simp only [hfold, bind, Except.bind, pure, Except.pure, Except.ok.injEq] at hok
    exact ⟨ret, rfl, hok.symm⟩

end Sorting

/-- **Concatenation.**  On disjoint segments a result keeps every byte at its address exactly
when the segments need no padding.
SOURCE: ihex.rs:317-414, upload.rs:43-66 -/
theorem concatSegments_keepsBytes_iff (codes : List CodeSegment) (maxGap : ℕ)
    (paddingByte : UInt8) (out : List CodeSegment) (hwf : ∀ c ∈ codes, WellFormed c)
    (hdis : codes.Pairwise DisjointSegments)
    (hok : concatSegments codes maxGap paddingByte = .ok out) :
    KeepsBytes codes paddingByte out ↔ NoPadding maxGap codes := by
  by_cases hlen : codes.length < 2
  · rw [concatSegments, if_pos hlen, Except.ok.injEq] at hok
    subst hok
    obtain ⟨hkeeps, hno⟩ := keepsBytes_self maxGap paddingByte hwf hlen
    exact iff_of_true hkeeps hno
  · obtain ⟨ret, hfold, rfl⟩ := concatSegments_loop (not_lt.mp hlen) hok
    rw [← keepsBytes_inOrder, ← noPadding_inOrder]
    obtain ⟨hwf', hdis', hsorted⟩ := inOrder_ok hwf hdis
    obtain ⟨hloop, ⟨hfaith, hno⟩ | ⟨hlag, hnot⟩⟩ := concatLoop_result hwf' hdis' hsorted hfold
    · exact iff_of_true (keepsBytes_of_faithful paddingByte hloop hfaith) hno
    · exact iff_of_false (not_keepsBytes_of_lagging paddingByte hlag) hnot

theorem disjointSegments_of_le (h : c.startAddress + c.data.length ≤ d.startAddress) :
    DisjointSegments c d := by
  intro a x y hx hy
  have h₁ := PlacedAt.bounds hx
  have h₂ := PlacedAt.bounds hy
  omega

/-- Three segments that follow each other directly. -/
def adjacentSegments : List CodeSegment :=
  [⟨0, 2, [0x11, 0x22], false⟩, ⟨3, 4, [0x44], false⟩, ⟨2, 3, [0x33], false⟩]

/-- They are put together as they should be. -/
theorem concatSegments_keepsBytes_adjacent :
    concatSegments adjacentSegments 10 0xff =
        .ok [⟨0, 4, [0x11, 0x22, 0x33, 0x44], false⟩] ∧
      NoPadding 10 adjacentSegments ∧
      KeepsBytes adjacentSegments 0xff [⟨0, 4, [0x11, 0x22, 0x33, 0x44], false⟩] := by
  have hok : concatSegments adjacentSegments 10 0xff =
      .ok [⟨0, 4, [0x11, 0x22, 0x33, 0x44], false⟩] := by decide +kernel
  have hno : NoPadding 10 adjacentSegments :=
    ⟨by simp [GapFree, adjacentSegments], by simp [adjacentSegments]⟩
  refine ⟨hok, hno, (concatSegments_keepsBytes_iff _ 10 0xff _
    (by simp [WellFormed, adjacentSegments]) ?_ hok).mpr hno⟩
  simp only [adjacentSegments, List.pairwise_cons, List.mem_cons, List.not_mem_nil, or_false,
    forall_eq_or_imp, forall_eq]
  refine ⟨⟨disjointSegments_of_le (by decide), disjointSegments_of_le (by decide)⟩, ?_, by simp⟩
  intro a x y hx hy
  exact disjointSegments_of_le (c := ⟨2, 3, [0x33], false⟩) (d := ⟨3, 4, [0x44], false⟩)
    (by decide) a y x hy hx

/-- Three segments with gaps between them. -/
def gappedSegments : List CodeSegment :=
  [⟨0, 2, [0x11, 0x22], false⟩, ⟨5, 7, [0x33, 0x44], false⟩, ⟨9, 10, [0x55], false⟩]

/-- What `concat_segments` makes of them: the end address stays at the number of code bytes, and the
third segment, which belongs at address 9, is put at offset 12. -/
def paddedSegment : CodeSegment :=
  ⟨0, 5, [0x11, 0x22, 0xff, 0xff, 0xff, 0x33, 0x44, 0xff, 0xff, 0xff, 0xff, 0xff, 0x55], false⟩

/-- The bytes of `gappedSegments` are not kept at their addresses.
SOURCE: ihex.rs:389-406 -/
theorem concatSegments_loses_bytes :
    (∀ c ∈ gappedSegments, WellFormed c) ∧ gappedSegments.Pairwise DisjointSegments ∧
      concatSegments gappedSegments 10 0xff = .ok [paddedSegment] ∧
      ¬ KeepsBytes gappedSegments 0xff [paddedSegment] := by
  refine ⟨by simp [WellFormed, gappedSegments], ?_, by decide +kernel, ?_⟩
  · simp only [gappedSegments, List.pairwise_cons, List.mem_cons, List.not_mem_nil, or_false,
      forall_eq_or_imp, forall_eq]
    exact ⟨⟨disjointSegments_of_le (by decide), disjointSegments_of_le (by decide)⟩,
      disjointSegments_of_le (by decide), by simp⟩
  · rintro ⟨hstep, -, -⟩
    have := hstep _ (List.mem_singleton.mpr rfl)
    exact absurd this (by decide)

end Uartbus.Analysis
