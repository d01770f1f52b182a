import Mathlib.Algebra.Order.Ring.Int
import Mathlib.Tactic.Ring

/-!
# The next multiple

`nextMultiple v x` is the least multiple of `v` above `x`.  It is the same from `x` up to itself,
and a later number has reached it when there is a multiple in between.
-/

set_option autoImplicit false

namespace Uartbus.Lib

def nextMultiple (v x : ℤ) : ℤ := x / v * v + v

variable {v x y m : ℤ}

theorem dvd_nextMultiple (v x : ℤ) : v ∣ nextMultiple v x :=
  Int.dvd_add (Dvd.intro_left (x / v) rfl) (dvd_refl v)

theorem lt_nextMultiple (hv : 0 < v) (x : ℤ) : x < nextMultiple v x := by
  have hmod := Int.emod_lt_of_pos x hv
  have hdiv := Int.ediv_mul_add_emod x v
  unfold nextMultiple
  omega

theorem nextMultiple_le (hv : 0 < v) (hm : v ∣ m) (hlt : x < m) : nextMultiple v x ≤ m := by
  obtain ⟨k, rfl⟩ := hm
  have hk : x / v < k := Int.ediv_lt_of_lt_mul hv (by rwa [Int.mul_comm])
  calc nextMultiple v x = (x / v + 1) * v := by unfold nextMultiple; ring
    _ ≤ k * v := Int.mul_le_mul_of_nonneg_right hk hv.le
    _ = v * k := Int.mul_comm k v

theorem nextMultiple_mono (hv : 0 < v) (h : x ≤ y) : nextMultiple v x ≤ nextMultiple v y :=
  nextMultiple_le hv (dvd_nextMultiple v y) (lt_of_le_of_lt h (lt_nextMultiple hv y))

/-- Whether the next multiple has been reached. -/
theorem nextMultiple_le_iff (hv : 0 < v) :
    nextMultiple v x ≤ y ↔ ∃ m, v ∣ m ∧ x < m ∧ m ≤ y := by
  constructor
  · intro h
    exact ⟨nextMultiple v x, dvd_nextMultiple v x, lt_nextMultiple hv x, h⟩
  · rintro ⟨m, hm, hlt, hle⟩
    exact (nextMultiple_le hv hm hlt).trans hle

theorem nextMultiple_eq_of_lt (hv : 0 < v) (h : x ≤ y) (hlt : y < nextMultiple v x) :
    nextMultiple v y = nextMultiple v x :=
  le_antisymm (nextMultiple_le hv (dvd_nextMultiple v x) hlt) (nextMultiple_mono hv h)

/-- The least multiple above a number is this one. -/
theorem eq_nextMultiple (hv : 0 < v) (hm : v ∣ m) (hlt : x < m)
    (hleast : ∀ k, v ∣ k → x < k → m ≤ k) : m = nextMultiple v x :=
  le_antisymm (hleast _ (dvd_nextMultiple v x) (lt_nextMultiple hv x)) (nextMultiple_le hv hm hlt)

end Uartbus.Lib
