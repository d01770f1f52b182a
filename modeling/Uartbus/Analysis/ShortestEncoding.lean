import Uartbus.Analysis.PackValue

/-!
# The shortest encoding of a value

A byte string that `unpack_value` uses up is an encoding of its value.  The value and the number of
bytes determine it (`complete_iff`), so the encodings of a value differ in length only, and
`pack_value` gives the first of them.
-/

set_option autoImplicit false

namespace Uartbus.Analysis

open Lib Interface Model

/-- `unpack_value` uses all bytes of `e` and returns `v`. -/
def Complete (signed : Bool) (e : Bytes) (v : ℤ) : Prop :=
  unpackValue signed e 0 = .ok (v, e.length)

/-- A value has one sign and one magnitude. -/
theorem signedValue_eq {sign : Bool} {m : ℕ} {v : ℤ} (h : v = signedValue sign m) :
    sign = decide (v < 0) ∧ m = packMagnitude v := by
  unfold signedValue at h
  unfold packMagnitude
  cases sign with
  | true =>
    simp only [if_true] at h
    have hneg : v < 0 := by omega
    simp only [hneg, decide_true, if_true, true_and]
    omega
  | false =>
    simp only [Bool.false_eq_true, if_false] at h
    have hpos : ¬ v < 0 := by omega
    simp only [hpos, decide_false, if_false, true_and]
    omega

/-- What `n` groups hold, for the magnitude of a value. -/
theorem fits_magnitude (signed : Bool) (n : ℕ) (v : ℤ) :
    Fits signed n (packMagnitude v) ↔
      1 ≤ n ∧ (if v < 0 then -v - 1 else v) < 2 ^ (7 * n - if signed then 1 else 0) := by
  have hmag : ((packMagnitude v : ℕ) : ℤ) = if v < 0 then -v - 1 else v := by
    unfold packMagnitude
    split <;> omega
  rw [fits_iff, ← hmag]
  exact and_congr_right fun _ => by exact_mod_cast Iff.rfl

/-- **The encodings of a value.**  There is one for every number of groups that holds the
magnitude; negative values have them in the signed mode only. -/
theorem complete_iff {signed : Bool} {e : Bytes} {v : ℤ} :
    Complete signed e v ↔ (signed = false → 0 ≤ v) ∧ Fits signed e.length (packMagnitude v) ∧
      e = packedBytes (decide (v < 0)) e.length (packMagnitude v) := by
  constructor
  · intro h
    obtain ⟨sign, m, hsign, hfit, hv, post, hdrop⟩ := unpackValue_eq_ok h
    obtain ⟨rfl, rfl⟩ := signedValue_eq hv
    refine ⟨fun hs => ?_, hfit, ?_⟩
    · by_contra hneg
      have := hsign (decide_eq_true (not_le.mp hneg))
      simp [hs] at this
    · -- the encoding is as long as all of `e`, so nothing stands behind it
      rw [List.drop_zero] at hdrop
      have hlen := congrArg List.length hdrop
      rw [List.length_append, packedBytes_length] at hlen
      have hpost : post = [] := List.length_eq_zero_iff.mp (by omega)
      rwa [hpost, List.append_nil] at hdrop
  · rintro ⟨hpos, hfit, he⟩
    have hsign : decide (v < 0) = true → signed = true := by
      intro hneg
      by_contra hs
      have := hpos (by simpa using hs)
      have := of_decide_eq_true hneg
      omega
    have hread := unpackValue_packedBytes hfit hsign [] []
    rw [List.nil_append, List.append_nil, ← he, signedValue_packMagnitude] at hread
    exact hread

/-- **Shortest encoding.**  `pack_value` gives an encoding of the value, every other encoding is
longer, and its length is the least number of bytes whose seven bit groups hold the magnitude.  To
pack what was read from an encoding takes no more bytes than it had.
SOURCE: tools.rs:168-218, 284-315 -/
theorem packValue_shortest (signed : Bool) (v : ℤ) (hv : signed = false → 0 ≤ v) :
    (∃ e, packValue signed v = .ok e ∧ Complete signed e v ∧
      (∀ e', Complete signed e' v → e' ≠ e → e.length < e'.length) ∧
      IsLeast {n | 1 ≤ n ∧ (if v < 0 then -v - 1 else v) <
        2 ^ (7 * n - if signed then 1 else 0)} e.length) ∧
      ∀ (data : List UInt8) (w : ℤ), Complete signed data w →
        ∃ e, packValue signed w = .ok e ∧ e.length ≤ data.length := by
  have hpack : ∀ w : ℤ, (signed = false → 0 ≤ w) → ∃ e, packValue signed w = .ok e ∧
      Complete signed e w ∧ Shortest signed e.length (packMagnitude w) := by
    intro w hw
    obtain ⟨n, hshort, heq⟩ := packValue_eq signed w hw
    refine ⟨_, heq, complete_iff.mpr ⟨hw, ?_, ?_⟩, ?_⟩
    · rw [packedBytes_length]
      exact hshort.1
    · rw [packedBytes_length]
    · rwa [packedBytes_length]
  refine ⟨?_, fun data w hdata => ?_⟩
  · obtain ⟨e, heq, hcomplete, hshort⟩ := hpack v hv
    refine ⟨e, heq, hcomplete, fun e' he' hne => ?_, ?_, ?_⟩
    · obtain ⟨-, hfit, hbytes⟩ := complete_iff.mp he'
      have hle := hshort.2 _ hfit
      rcases Nat.lt_or_ge e.length e'.length with hlt | hge
      · exact hlt
      · have hlen : e'.length = e.length := by omega
        rw [hlen, ← (complete_iff.mp hcomplete).2.2] at hbytes
        exact absurd hbytes hne
    · exact (fits_magnitude signed e.length v).mp hshort.1
    · intro n hn
      exact hshort.2 n ((fits_magnitude signed n v).mpr hn)
  · obtain ⟨e, heq, -, hshort⟩ := hpack w (complete_iff.mp hdata).1
    exact ⟨e, heq, hshort.2 _ (complete_iff.mp hdata).2.1⟩

/-- The two encodings with two bytes and one byte of a negative value. -/
theorem packValue_shortest_negative :
    Complete true [0xc0, 0x05] (-6) ∧ ∃ e, packValue true (-6) = .ok e ∧ Complete true e (-6) ∧
      ∀ e', Complete true e' (-6) → e' ≠ e → e.length < e'.length := by
  obtain ⟨⟨e, heq, hcomplete, hleast, -⟩, -⟩ := packValue_shortest true (-6) (by decide)
  exact ⟨rfl, e, heq, hcomplete, hleast⟩

end Uartbus.Analysis
