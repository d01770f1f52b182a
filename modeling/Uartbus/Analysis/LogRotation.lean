import Uartbus.Analysis.ColonData
import Uartbus.Lib.Multiples

/-!
# When a log file is changed

`Rotation::parse` accepts positive 64 bit numbers of seconds (`one_le_of_parse`), and
`next_cut_time` multiplies them by 1000 and adds them to a time.  Where the next multiple of the
interval is a 64 bit number, it is computed without overflow (`nextCutTime_eq`), and a call of `log`
changes the file exactly when a multiple has been passed since the call before (`CutAt.log`).  For
longer intervals it is not: the product leaves the type, and without overflow checks it may even be
zero.
-/

set_option autoImplicit false

namespace Uartbus.Analysis

open Lib Model

/-! ## Intervals -/

/-- The interval of so many seconds, in milliseconds. -/
def interval (s : Int64) : ℤ := 1000 * s.toInt

theorem interval_pos {s : Int64} (hs : 1 ≤ s.toInt) : 0 < interval s := by
  unfold interval
  omega

theorem one_le_of_parse {text : Text} {s : Int64} (h : Rotation.parse text = .ok (.seconds s)) :
    1 ≤ s.toInt := by
  unfold Rotation.parse at h
  split at h
  · cases h
  · split at h
    · cases h
    · split at h
      · cases h
      · rename_i hpos
        cases h
        rw [Int64.lt_iff_toInt_lt] at hpos
        exact Int.not_lt.mp hpos

theorem exists_int64 {x : ℤ} (hleast : 0 ≤ x) (hlt : x < 2 ^ 63) : ∃ n : Int64, n.toInt = x :=
  ⟨Int64.ofInt x, Int64.toInt_ofInt_of_le (by omega) hlt⟩

/-- `next_cut_time` has a result, and it is the least multiple of the interval above `now`. -/
def CutTimeSound (mode : Overflow) (calendar : Calendar) (s now : Int64) : Prop :=
  ∃ cut, (Rotation.seconds s).nextCutTime mode calendar now = some cut ∧
    interval s ∣ cut.toInt ∧ now.toInt < cut.toInt ∧
    ∀ m, interval s ∣ m → now.toInt < m → cut.toInt ≤ m

variable (mode : Overflow) (calendar : Calendar) {s now : Int64} {inputs : List LogInput}

/-- **The computation of the next cut**, where it is a 64 bit number. -/
theorem nextCutTime_eq (hs : 1 ≤ s.toInt) (hnow : 0 ≤ now.toInt)
    (hcut : nextMultiple (interval s) now.toInt < 2 ^ 63) :
    ∃ cut, (Rotation.seconds s).nextCutTime mode calendar now = some cut ∧
      cut.toInt = nextMultiple (interval s) now.toInt := by
  have hv := interval_pos hs
  have hcount : 0 ≤ now.toInt / interval s := Int.ediv_nonneg hnow hv.le
  have hbelow : now.toInt / interval s ≤ now.toInt / interval s * interval s :=
    le_mul_of_one_le_right hcount hv
  have hsum : nextMultiple (interval s) now.toInt =
    now.toInt / interval s * interval s + interval s := rfl
  obtain ⟨v, hwidth⟩ : ∃ v : Int64, v.toInt = interval s := exists_int64 (by omega) (by omega)
  obtain ⟨intervals, hintervals⟩ : ∃ n : Int64, n.toInt = now.toInt / interval s :=
    exists_int64 (by omega) (by omega)
  obtain ⟨start, hstart⟩ : ∃ n : Int64, n.toInt = now.toInt / interval s * interval s :=
    exists_int64 (by omega) (by omega)
  obtain ⟨cut, hvalue⟩ := exists_int64 (x := nextMultiple (interval s) now.toInt) (by omega) hcut
  refine ⟨cut, ?_, hvalue⟩
  have hmul : MachineInt.mul mode s 1000 = some v :=
    MachineInt.mul_eq_some (hwidth.trans (Int.mul_comm 1000 s.toInt))
  have hdiv : MachineInt.div now v = some intervals := by
    refine MachineInt.div_eq_some (hwidth.trans_ne hv.ne') (hintervals.trans ?_)
    -- truncation is rounding down here
    rw [← Int.tdiv_eq_ediv_of_nonneg hnow, ← hwidth]
    rfl
  have hback : MachineInt.mul mode intervals v = some start := by
    refine MachineInt.mul_eq_some (hstart.trans ?_)
    rw [← hintervals, ← hwidth]
    rfl
  have hadd : MachineInt.add mode start v = some cut := by
    refine MachineInt.add_eq_some (hvalue.trans (hsum.trans ?_))
    rw [← hstart, ← hwidth]
    rfl
  simp only [Rotation.nextCutTime, hmul, hdiv, hback, hadd, Option.bind_eq_bind, Option.bind_some]

/-- The time of the next cut is right exactly where it is a 64 bit number: a result of the type
cannot be the multiple otherwise. -/
theorem cutTimeSound_iff (hs : 1 ≤ s.toInt) (hnow : 0 ≤ now.toInt) :
    CutTimeSound mode calendar s now ↔ nextMultiple (interval s) now.toInt < 2 ^ 63 := by
  have hv := interval_pos hs
  constructor
  · rintro ⟨cut, -, hdvd, hlt, hleast⟩
    rw [← eq_nextMultiple hv hdvd hlt hleast]
    exact cut.toInt_lt
  · intro hcut
    obtain ⟨cut, hresult, hvalue⟩ := nextCutTime_eq mode calendar hs hnow hcut
    refine ⟨cut, hresult, ?_⟩
    rw [hvalue]
    exact ⟨dvd_nextMultiple _ _, lt_nextMultiple hv _, fun m hm hlt => nextMultiple_le hv hm hlt⟩

/-! ## Runs -/

/-- The output cuts at this interval, and the next cut is the one after the last call. -/
structure CutAt (s : Int64) (time : ℤ) (output : LogRotaOutput) : Prop where
  rotation : output.rotation = .seconds s
  cut : output.current ≠ none → output.nextCutTime.toInt = nextMultiple (interval s) time

/-- There is a multiple of the interval after the first time, and not after the second. -/
def IntervalPassed (s : Int64) (time time' : ℤ) : Prop := ∃ m, interval s ∣ m ∧ time < m ∧ m ≤ time'

theorem cutAt_new (filePrefix filePostfix : Text) (s : Int64) (format : LogFormat) (time : ℤ) :
    CutAt s time (LogRotaOutput.new filePrefix filePostfix (.seconds s) format) :=
  { rotation := rfl
    cut := fun h => absurd rfl h }

variable {output : LogRotaOutput} {input : LogInput} {time latest : ℤ}

/-- Whether a call changes the file. -/
theorem CutAt.due_iff (h : CutAt s time output) (hs : 1 ≤ s.toInt) :
    (output.current = none ∨ input.timeMs ≥ output.nextCutTime) ↔
      (output.current = none ∨ IntervalPassed s time input.timeMs.toInt) := by
  have hv := interval_pos hs
  refine or_congr_right' fun hcurrent => ?_
  rw [ge_iff_le, Int64.le_iff_toInt_le, h.cut hcurrent, nextMultiple_le_iff hv]
  rfl

/-- **One call** keeps the invariant, and opens a file when none is open or a multiple has been
passed, if the file system lets it. -/
theorem CutAt.log (h : CutAt s time output) (hs : 1 ≤ s.toInt) (htime : 0 ≤ time)
    (hle : time ≤ input.timeMs.toInt)
    (hcut : nextMultiple (interval s) input.timeMs.toInt < 2 ^ 63) :
    ∃ call, output.log mode calendar input = some call ∧
      CutAt s input.timeMs.toInt call.output ∧
      (call.opened.isSome ↔ (input.fates.directory && input.fates.opens) = true ∧
        (output.current = none ∨ IntervalPassed s time input.timeMs.toInt)) := by
  have hv := interval_pos hs
  by_cases hdue : output.current = none ∨ input.timeMs ≥ output.nextCutTime
  · by_cases hopens : (input.fates.directory && input.fates.opens) = true
    · obtain ⟨cut, hresult, hvalue⟩ :=
        nextCutTime_eq mode calendar hs (htime.trans hle) hcut
      rw [LogRotaOutput.log, if_pos hdue, if_pos hopens, h.rotation, hresult, Option.bind_eq_bind,
        Option.bind_some]
      refine ⟨_, rfl, { rotation := rfl, cut := fun _ => hvalue }, ?_⟩
      exact ⟨fun _ => ⟨hopens, (h.due_iff hs).mp hdue⟩, fun _ => rfl⟩
    · rw [LogRotaOutput.log, if_pos hdue, if_neg hopens]
      refine ⟨_, rfl, { rotation := h.rotation, cut := fun hc => absurd rfl hc }, ?_⟩
      exact ⟨fun hopened => absurd hopened Bool.false_ne_true,
        fun ⟨hopened, _⟩ => absurd hopened hopens⟩
  · have hearly : input.timeMs.toInt < nextMultiple (interval s) time := by
      rw [← h.cut fun hc => hdue (.inl hc), ← Int64.lt_iff_toInt_lt]
      exact Int64.not_le.mp fun hc => hdue (.inr hc)
    rw [LogRotaOutput.log, if_neg hdue]
    refine ⟨_, rfl, { rotation := h.rotation, cut := fun hc => ?_ }, ?_⟩
    · rw [nextMultiple_eq_of_lt hv hle hearly]
      exact h.cut hc
    · exact ⟨fun hopened => absurd hopened Bool.false_ne_true,
        fun ⟨_, hpassed⟩ => absurd ((h.due_iff hs).mpr hpassed) hdue⟩

/-- The calls come one after another, up to this time. -/
structure InOrder (time latest : ℤ) (inputs : List LogInput) : Prop where
  from_time : ∀ input ∈ inputs, time ≤ input.timeMs.toInt
  to_latest : ∀ input ∈ inputs, input.timeMs.toInt ≤ latest
  sorted : inputs.Pairwise fun input later => input.timeMs.toInt ≤ later.timeMs.toInt

theorem InOrder.tail (h : InOrder time latest (input :: inputs)) :
    InOrder input.timeMs.toInt latest inputs :=
  { from_time := (List.pairwise_cons.mp h.sorted).1
    to_latest := fun later hlater => h.to_latest later (List.mem_cons_of_mem input hlater)
    sorted := (List.pairwise_cons.mp h.sorted).2 }

/-- **A run** does not panic, and the invariant holds after it. -/
theorem CutAt.logAll (h : CutAt s time output) (hs : 1 ≤ s.toInt) (htime : 0 ≤ time)
    (hcut : nextMultiple (interval s) latest < 2 ^ 63) {last : LogInput}
    (horder : InOrder time latest (inputs ++ [last])) :
    ∃ after, output.logAll mode calendar (inputs ++ [last]) = some after ∧
      CutAt s last.timeMs.toInt after := by
  have hv := interval_pos hs
  induction inputs generalizing time output with
  | nil =>
    have hmem : last ∈ [] ++ [last] := List.mem_singleton_self last
    have hbound := (nextMultiple_mono hv (horder.to_latest last hmem)).trans_lt hcut
    obtain ⟨call, hcall, hafter, -⟩ := h.log mode calendar hs htime
      (horder.from_time last hmem) hbound
    refine ⟨call.output, ?_, hafter⟩
    rw [List.nil_append, LogRotaOutput.logAll_cons, hcall]
    rfl
  | cons input inputs ih =>
    have hmem : input ∈ input :: inputs ++ [last] := List.mem_cons_self
    have hbound := (nextMultiple_mono hv (horder.to_latest input hmem)).trans_lt hcut
    have hlater := horder.from_time input hmem
    obtain ⟨call, hcall, hnext, -⟩ := h.log mode calendar hs htime hlater
      hbound
    rw [List.cons_append, LogRotaOutput.logAll_cons, hcall]
    exact ih hnext (htime.trans hlater) horder.tail

/-- Over every run of calls in order up to a time, no call panics, and a call opens a file exactly
when none is open or a multiple of the interval has been passed since the call before. -/
def OpensAtMultiples (mode : Overflow) (calendar : Calendar) (s : Int64) (latest : ℤ)
    (output : LogRotaOutput) : Prop :=
  ∀ inputs last next, InOrder 0 latest (inputs ++ [last, next]) →
    ∃ before call, output.logAll mode calendar (inputs ++ [last]) = some before ∧
      before.log mode calendar next = some call ∧
      (call.opened.isSome ↔ (next.fates.directory && next.fates.opens) = true ∧
        (before.current = none ∨ IntervalPassed s last.timeMs.toInt next.timeMs.toInt))

/-- A new log file is cut at multiples of the interval. -/
theorem opensAtMultiples_new (filePrefix filePostfix : Text) (format : LogFormat)
    (hs : 1 ≤ s.toInt) (hcut : nextMultiple (interval s) latest < 2 ^ 63) :
    OpensAtMultiples mode calendar s latest
      (LogRotaOutput.new filePrefix filePostfix (.seconds s) format) := by
  intro inputs last next horder
  rw [List.append_cons] at horder
  have hmem : next ∈ inputs ++ [last] ++ [next] := List.mem_concat_self
  obtain ⟨hfirst, -, hlast⟩ := List.pairwise_append.mp horder.sorted
  have hrun : InOrder 0 latest (inputs ++ [last]) :=
    { from_time := fun input h => horder.from_time input (List.mem_append_left _ h)
      to_latest := fun input h => horder.to_latest input (List.mem_append_left _ h)
      sorted := hfirst }
  obtain ⟨before, hbefore, hcutAt⟩ :=
    (cutAt_new filePrefix filePostfix s format 0).logAll mode calendar hs
      le_rfl hcut hrun
  have hbound := (nextMultiple_mono (interval_pos hs) (horder.to_latest next hmem)).trans_lt hcut
  obtain ⟨call, hcall, -, hopened⟩ := hcutAt.log mode calendar hs
    (hrun.from_time last List.mem_concat_self)
    (hlast last List.mem_concat_self next (List.mem_singleton_self next)) hbound
  exact ⟨before, call, hbefore, hcall, hopened⟩

/-! ## The result -/

/-- **The cuts of an interval of seconds.**  For a text that is accepted as a number of seconds and
a time, `next_cut_time` is computed without overflow and is the least multiple of the interval above
the time exactly when that multiple is below `2 ^ 63`.  Up to such a time every run of calls opens
its files where a multiple has been passed.
SOURCE: apps/log_file.rs:86-117, 149-166, 230-236 -/
theorem secondsRotation_sound_iff (mode : Overflow) (calendar : Calendar) {text : Text}
    {s now : Int64} (hparse : Rotation.parse text = .ok (.seconds s)) (hnow : 0 ≤ now.toInt) :
    (CutTimeSound mode calendar s now ↔
        (now.toInt / (1000 * s.toInt) + 1) * (1000 * s.toInt) < 2 ^ 63) ∧
      (CutTimeSound mode calendar s now → ∀ filePrefix filePostfix format,
        OpensAtMultiples mode calendar s now.toInt
          (LogRotaOutput.new filePrefix filePostfix (.seconds s) format)) := by
  have hs := one_le_of_parse hparse
  have hmultiple : (now.toInt / (1000 * s.toInt) + 1) * (1000 * s.toInt) =
      nextMultiple (interval s) now.toInt := by
    rw [Int.add_mul, Int.one_mul, nextMultiple, interval]
  rw [hmultiple]
  have hiff := cutTimeSound_iff mode calendar hs hnow
  exact ⟨hiff, fun hsound filePrefix filePostfix format =>
    opensAtMultiples_new mode calendar filePrefix filePostfix format hs (hiff.mp hsound)⟩

/-- Files of ten seconds. -/
theorem tenSeconds_sound :
    Rotation.parse "10".toList = .ok (.seconds 10) ∧
      CutTimeSound .panics stoppedCalendar 10 25300 ∧
      OpensAtMultiples .panics stoppedCalendar 10 25300
        (LogRotaOutput.new [] [] (.seconds 10) .plain) := by
  have hparse : Rotation.parse "10".toList = .ok (.seconds 10) := by decide +kernel
  obtain ⟨hiff, hruns⟩ :=
    secondsRotation_sound_iff .panics stoppedCalendar hparse
      (show 0 ≤ (25300 : Int64).toInt by decide)
  have hsound := hiff.mpr (by decide)
  exact ⟨hparse, hsound, hruns hsound [] [] .plain⟩

/-- Two accepted intervals.  The product of the first with 1000 is zero modulo `2 ^ 64`, so there is
no next cut in any build.  That of the second leaves the type too, and without overflow checks the
cut is before the time at which it is computed. -/
theorem longIntervals_not_sound :
    Rotation.parse "2305843009213693952".toList = .ok (.seconds 2305843009213693952) ∧
      (Rotation.seconds 2305843009213693952).nextCutTime .panics stoppedCalendar 0 = none ∧
      (Rotation.seconds 2305843009213693952).nextCutTime .wraps stoppedCalendar 0 = none ∧
      Rotation.parse "9223372036854776".toList = .ok (.seconds 9223372036854776) ∧
      (Rotation.seconds 9223372036854776).nextCutTime .panics stoppedCalendar 0 = none ∧
      (Rotation.seconds 9223372036854776).nextCutTime .wraps stoppedCalendar 0 =
        some (-9223372036854775616) := by
  decide +kernel

end Uartbus.Analysis
