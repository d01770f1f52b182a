import Mathlib.Algebra.Ring.Int.Defs
import Uartbus.Model.SliceClock

/-!
# Time-outs and clocks that wrap

`is_slice_exceed` has a branch of its own for a clock that has wrapped.  On a clock of 32 bits the
branch counts one microsecond too few; on the clock of the Linux gateway, which wraps every second,
it counts almost the whole range of 32 bits.
-/

set_option autoImplicit false

namespace Uartbus.Analysis

open Model

variable (b : SizedBus) (update : Bool) (now : UInt32)

/-! ## The arithmetic of the code -/

theorem sliceCycles_lt : b.bus.sliceCycles < 2 ^ 8 := by
  have hsize := b.packetTimeout_lt
  unfold Bus.sliceCycles
  split <;> omega

theorem timeout_lt : b.timeout < 2 ^ 24 := by
  have hcycles := sliceCycles_lt b
  have hbyte := b.byteTimeUs_lt
  calc b.timeout ≤ (2 ^ 16 - 1) * (2 ^ 8 - 1) := Nat.mul_le_mul (by omega) (by omega)
    _ < 2 ^ 24 := by decide

/-- The multiplier as the code reads it out of the fields. -/
theorem multiplier_toNat :
    (if b.bus.status = .fairwait then UInt8.ofInt b.bus.wi
      else UInt8.ofNat b.bus.packetTimeout).toNat = b.bus.sliceCycles := by
  have hsize := b.packetTimeout_lt
  unfold Bus.sliceCycles
  split
  · change (UInt8.ofNat (b.bus.wi % 2 ^ 8).toNat).toNat = _
    rw [UInt8.toNat_ofNat']
    omega
  · rw [UInt8.toNat_ofNat']
    exact Nat.mod_eq_of_lt hsize

theorem product_toNat {mul : UInt8} (hmul : mul.toNat = b.bus.sliceCycles) :
    ((UInt16.ofNat b.bus.byteTimeUs).toUInt32 * mul.toUInt32).toNat = b.timeout := by
  have hlt := timeout_lt b
  have hbyte := b.byteTimeUs_lt
  rw [UInt32.toNat_mul, UInt16.toNat_toUInt32, UInt8.toNat_toUInt32, hmul, UInt16.toNat_ofNat',
    Nat.mod_eq_of_lt hbyte]
  exact Nat.mod_eq_of_lt (Nat.lt_trans hlt (by decide))

/-- The comparison in 32 bits is the one of the numbers. -/
theorem compare_eq (last timeout : UInt32) :
    (if now < last then decide (now + (0xFFFFFFFF - last) ≥ timeout)
      else decide (now - last ≥ timeout)) =
    (if now.toNat < last.toNat then decide (now.toNat + (2 ^ 32 - 1 - last.toNat) ≥ timeout.toNat)
      else decide (now.toNat - last.toNat ≥ timeout.toNat)) := by
  have hlast := last.toNat_lt
  have hback : (0xFFFFFFFF - last : UInt32).toNat = 2 ^ 32 - 1 - last.toNat := by
    rw [UInt32.toNat_sub_of_le]
    · rfl
    · rw [UInt32.le_iff_toNat_le]
      exact Nat.le_sub_one_of_lt hlast
  by_cases hwrap : now < last
  · have hwrap' : now.toNat < last.toNat := UInt32.lt_iff_toNat_lt.mp hwrap
    rw [if_pos hwrap, if_pos hwrap', decide_eq_decide, ge_iff_le, UInt32.le_iff_toNat_le,
      UInt32.toNat_add, hback, Nat.mod_eq_of_lt (by omega)]
  · have hwrap' : ¬ now.toNat < last.toNat := fun h => hwrap (UInt32.lt_iff_toNat_lt.mpr h)
    rw [if_neg hwrap, if_neg hwrap', decide_eq_decide, ge_iff_le, UInt32.le_iff_toNat_le,
      UInt32.toNat_sub_of_le now last (UInt32.le_iff_toNat_le.mpr (by omega))]

/-- The function with its flag, in terms of the time-out over numbers. -/
theorem isSliceExceedUpdate_eq :
    b.bus.isSliceExceedUpdate update now =
      (b.bus.isSliceExceed now.toNat,
        if update then b.bus.updateLastActivityNow now.toNat else b.bus) := by
  have hlast : (UInt32.ofNat b.bus.lastBusActivity).toNat = b.bus.lastBusActivity := by
    exact Nat.mod_eq_of_lt b.lastBusActivity_lt
  have hcompare := compare_eq now (UInt32.ofNat b.bus.lastBusActivity)
    ((UInt16.ofNat b.bus.byteTimeUs).toUInt32 *
      (if b.bus.status = .fairwait then UInt8.ofInt b.bus.wi
        else UInt8.ofNat b.bus.packetTimeout).toUInt32)
  rw [product_toNat b (multiplier_toNat b), hlast] at hcompare
  refine Prod.ext ?_ ?_
  · calc (b.bus.isSliceExceedUpdate update now).1 = _ := by
          cases update <;> exact apply_ite Prod.fst _ _ _
      _ = _ := hcompare
  · cases update <;> exact (apply_ite Prod.snd _ _ _).trans (ite_self _)

/-! ## A clock of 32 bits -/

/-- The microseconds from the last activity to `now` on a clock that wraps at `2 ^ 32`. -/
def elapsed : ℤ := ((now.toNat : ℤ) - b.bus.lastBusActivity) % 2 ^ 32

theorem elapsed_eq : elapsed b now =
    if now.toNat < b.bus.lastBusActivity then
      ((now.toNat + (2 ^ 32 - b.bus.lastBusActivity) : ℕ) : ℤ)
    else ((now.toNat - b.bus.lastBusActivity : ℕ) : ℤ) := by
  have hnow := now.toNat_lt
  have hlast := b.lastBusActivity_lt
  unfold elapsed
  split <;> omega

/-- The time-out is over exactly when that much time has passed, and the flag only stores the
clock. -/
structure TimesOut : Prop where
  exceeds : (b.bus.isSliceExceedUpdate update now).1 = true ↔ (b.timeout : ℤ) ≤ elapsed b now
  stores : (b.bus.isSliceExceedUpdate update now).2 =
    if update then { b.bus with lastBusActivity := now.toNat } else b.bus

theorem isSliceExceed_iff : b.bus.isSliceExceed now.toNat = true ↔
    if now.toNat < b.bus.lastBusActivity then (b.timeout : ℤ) + 1 ≤ elapsed b now
    else (b.timeout : ℤ) ≤ elapsed b now := by
  have hlast := b.lastBusActivity_lt
  rw [elapsed_eq]
  change (if _ then decide (_ ≥ b.timeout) else decide (_ ≥ b.timeout)) = true ↔ _
  split
  · rw [decide_eq_true_iff]
    omega
  · rw [decide_eq_true_iff]
    omega

theorem TimesOut.ne_timeout (h : TimesOut b update now)
    (hwrap : now.toNat < b.bus.lastBusActivity) : elapsed b now ≠ b.timeout := by
  intro hequal
  have hexceeds := h.exceeds
  rw [isSliceExceedUpdate_eq, isSliceExceed_iff, if_pos hwrap] at hexceeds
  omega

/-- **Time-outs.**  On the 32 bit clock the time-out is over exactly when that much time has passed,
unless the clock has wrapped and exactly the time-out has elapsed: then the code counts one
microsecond too few.
SOURCE: ub.c:65-106, ub.h:112-136 -/
theorem timesOut_iff :
    TimesOut b update now ↔
      ¬ (now.toNat < b.bus.lastBusActivity ∧ elapsed b now = b.timeout) := by
  constructor
  · rintro h ⟨hwrap, hequal⟩
    exact h.ne_timeout b update now hwrap hequal
  · intro h
    refine ⟨?_, by rw [isSliceExceedUpdate_eq]; rfl⟩
    rw [isSliceExceedUpdate_eq, isSliceExceed_iff]
    split
    next hwrap =>
      omega
    next => rfl

/-- A receiving bus with 95 microseconds for a byte, its last one 100 microseconds before the clock
wraps. -/
def wrappingBus : SizedBus where
  bus :=
    { toSend := []
      toSendSize := 0
      status := .receiving
      byteTimeUs := 95
      packetTimeout := 2
      cfg := 0
      lastBusActivity := 4294967196
      wi := 0 }
  byteTimeUs_lt := by decide
  packetTimeout_lt := by decide
  lastBusActivity_lt := by decide

/-- The clock has wrapped to 90, and exactly the time-out has elapsed. -/
theorem wrappingBus_not_timesOut : ¬ TimesOut wrappingBus false 90 := by
  intro h
  exact h.ne_timeout _ _ _ (by decide) (by decide)

/-! ## The clock of the Linux gateway -/

theorem linuxMicros_toNat (time : ℕ) : (linuxMicros time).toNat = time % 1000000 := by
  change (UInt32.ofNat (time % 1000000)).toNat = _
  rw [UInt32.toNat_ofNat']
  omega

/-- A bus whose last activity was at the instant `t₀`, at `t₁`: the time-out is over exactly when
that much time has passed, and before that neither is a frame cut nor an echo taken for a
collision. -/
structure TimesOutOnLinux (t₀ t₁ : ℕ) : Prop where
  exceeds :
    ((b.activeAt (linuxMicros t₀)).bus.isSliceExceedUpdate update (linuxMicros t₁)).1 = true ↔
      b.timeout ≤ t₁ - t₀
  keepsFrame : t₁ - t₀ < b.timeout → ∀ rand,
    (b.activeAt (linuxMicros t₀)).bus.ubOutUpdateState (linuxMicros t₁).toNat rand =
      ((b.activeAt (linuxMicros t₀)).bus, [])
  keepsEcho : t₁ - t₀ < b.timeout → ∀ data : UInt8, b.bus.wi = data.toNat →
    ((b.activeAt (linuxMicros t₀)).bus.ubCheckAndHandleCollision (linuxMicros t₁).toNat
      data.toUInt16).2 = []

variable {t₀ t₁ : ℕ}

/-- Within a second the clock is right; in the next one the time-out is over at once. -/
theorem isSliceExceed_linux (hle : t₀ ≤ t₁) (hlt : t₁ < t₀ + 1000000)
    (htimeout : b.timeout < 1000000) :
    (b.activeAt (linuxMicros t₀)).bus.isSliceExceed (linuxMicros t₁).toNat = true ↔
      t₀ / 1000000 ≠ t₁ / 1000000 ∨ b.timeout ≤ t₁ - t₀ := by
  change (if (linuxMicros t₁).toNat < (linuxMicros t₀).toNat
    then decide ((linuxMicros t₁).toNat + (2 ^ 32 - 1 - (linuxMicros t₀).toNat) ≥ b.timeout)
    else decide ((linuxMicros t₁).toNat - (linuxMicros t₀).toNat ≥ b.timeout)) = true ↔ _
  rw [linuxMicros_toNat, linuxMicros_toNat]
  split
  next hwrap =>
    rw [decide_eq_true_iff]
    omega
  next hsame =>
    rw [decide_eq_true_iff]
    omega

theorem TimesOutOnLinux.sameSecond (h : TimesOutOnLinux b update t₀ t₁) (hle : t₀ ≤ t₁)
    (hlt : t₁ < t₀ + 1000000) (htimeout : b.timeout < 1000000) (hbefore : t₁ - t₀ < b.timeout) :
    t₀ / 1000000 = t₁ / 1000000 := by
  by_contra hother
  have hexceeds := h.exceeds
  rw [isSliceExceedUpdate_eq] at hexceeds
  have hover : b.timeout ≤ t₁ - t₀ :=
    hexceeds.mp ((isSliceExceed_linux b hle hlt htimeout).mpr (.inl hother))
  omega

/-- **Time-outs on Linux.**  The clock of the Linux gateway wraps every second.  Less than a second
after the last activity the time-out, the end of a frame and the check of an echo are right exactly
when the second is the same or the time-out has passed.
SOURCE: linux_bus_gateway.c:33-41, ub.c:65-106 -/
theorem timesOutOnLinux_iff (hle : t₀ ≤ t₁) (hlt : t₁ < t₀ + 1000000)
    (htimeout : b.timeout < 1000000) :
    TimesOutOnLinux b update t₀ t₁ ↔ t₀ / 1000000 = t₁ / 1000000 ∨ b.timeout ≤ t₁ - t₀ := by
  have hresult := isSliceExceed_linux b hle hlt htimeout
  constructor
  · intro h
    by_cases hbefore : t₁ - t₀ < b.timeout
    · exact .inl (h.sameSecond b update hle hlt htimeout hbefore)
    · exact .inr (Nat.not_lt.mp hbefore)
  · intro h
    have hexceeds : (b.activeAt (linuxMicros t₀)).bus.isSliceExceed (linuxMicros t₁).toNat = true ↔
        b.timeout ≤ t₁ - t₀ := by
      rw [hresult]
      omega
    have hrunning : t₁ - t₀ < b.timeout →
        (b.activeAt (linuxMicros t₀)).bus.isSliceExceed (linuxMicros t₁).toNat = false := by
      intro hbefore
      rw [← Bool.not_eq_true, hexceeds]
      exact Nat.not_le.mpr hbefore
    refine ⟨by rw [isSliceExceedUpdate_eq]; exact hexceeds, ?_, ?_⟩
    · intro hbefore rand
      unfold Bus.ubOutUpdateState
      rw [if_pos (hrunning hbefore), ite_self]
    · intro hbefore data hwi
      unfold Bus.ubCheckAndHandleCollision
      rw [if_neg, if_neg]
      · rw [hrunning hbefore]
        exact Bool.false_ne_true
      · rintro (hlarge | hother)
        · exact absurd hlarge (by simp; have := data.toNat_lt; omega)
        · exact hother hwi

/-- 150 microseconds in the same second. -/
theorem timesOutOnLinux_inSecond : TimesOutOnLinux wrappingBus true 500 650 :=
  (timesOutOnLinux_iff wrappingBus true (by decide) (by decide) (by decide)).mpr (.inl (by decide))

/-- A frame with 15 microseconds since its last byte is cut when a second ends between them. -/
theorem wrappingBus_not_timesOutOnLinux : ¬ TimesOutOnLinux wrappingBus true 999990 1000005 := by
  intro h
  have hsame := h.sameSecond _ _ (by decide) (by decide) (by decide) (by decide)
  exact absurd hsame (by decide)

end Uartbus.Analysis
