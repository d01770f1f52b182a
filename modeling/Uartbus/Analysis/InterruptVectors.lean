import Mathlib.Data.Nat.Bitwise
import Uartbus.Model.IhexTool

/-!
# Redirecting interrupt vectors

`rewrite_vectors` walks over the table it has read before it changes it.  Entries stand at multiples
of four, the opcode in the first two bytes and the destination in the other two, so a redirected
entry is found again where it was (`rewriteVectors_table`).
-/

set_option autoImplicit false

namespace Uartbus.Analysis

open Model

variable {v : ℕ × ℕ} {i : ℕ}

/-! ## The table -/

section Table

variable {data : Bytes} {fuel addr : ℕ}

/-- The destination in the two bytes behind the opcode. -/
def destinationAt (data : Bytes) (addr : ℕ) : ℕ :=
  ((data.getD (addr + 3) 0).toNat <<< 8 ||| (data.getD (addr + 2) 0).toNat) * 2

/-- An entry is read whole, its place is a multiple of four away from where the walk began, and its
destination is the one that stands there. -/
theorem vectorsFrom_mem (h : v ∈ vectorsFrom data fuel addr) :
    v.1 + 4 ≤ data.length ∧ addr ≤ v.1 ∧ v.1 % 4 = addr % 4 ∧ v.2 = destinationAt data v.1 := by
  induction fuel generalizing addr with
  | zero => simp [vectorsFrom] at h
  | succ fuel ih =>
    rw [vectorsFrom] at h
    split at h
    next hroom =>
      split at h
      · simp at h
      · rcases List.mem_cons.mp h with rfl | hmem
        · exact ⟨hroom, le_rfl, rfl, rfl⟩
        · obtain ⟨hlen, hle, hmod, hdst⟩ := ih hmem
          exact ⟨hlen, by omega, by omega, hdst⟩
    next => simp at h

theorem vectorsFrom_apart :
    (vectorsFrom data fuel addr).Pairwise fun u v => u.1 + 4 ≤ v.1 := by
  induction fuel generalizing addr with
  | zero => exact List.Pairwise.nil
  | succ fuel ih =>
    rw [vectorsFrom]
    split
    · split
      · exact List.Pairwise.nil
      · refine List.pairwise_cons.mpr ⟨fun v hv => ?_, ih⟩
        exact (vectorsFrom_mem hv).2.1
    · exact List.Pairwise.nil

end Table

/-! ## The bytes afterwards -/

section Bytes

variable {rewrite offset : ℕ}

/-- The place `i` is a destination byte of a redirected entry of the list. -/
def IsRedirected (rewrite : ℕ) (vectors : List (ℕ × ℕ)) (i : ℕ) : Prop :=
  ∃ v ∈ vectors, v.2 = rewrite ∧ (i = v.1 + 2 ∨ i = v.1 + 3)

theorem redirect_length (s : Bytes × ℕ) (v : ℕ × ℕ) :
    (redirect rewrite offset s v).1.length = s.1.length := by
  unfold redirect
  split <;> simp

theorem redirectAll_length (vectors : List (ℕ × ℕ)) (s : Bytes × ℕ) :
    (vectors.foldl (redirect rewrite offset) s).1.length = s.1.length := by
  induction vectors generalizing s with
  | nil => rfl
  | cons v vectors ih => rw [List.foldl_cons, ih, redirect_length]

theorem redirectAll_count (vectors : List (ℕ × ℕ)) (s : Bytes × ℕ) :
    (vectors.foldl (redirect rewrite offset) s).2 =
      s.2 + vectors.countP fun v => v.2 = rewrite := by
  induction vectors generalizing s with
  | nil => rfl
  | cons v vectors ih =>
    rw [List.foldl_cons, ih, List.countP_cons]
    unfold redirect
    by_cases hv : v.2 = rewrite
    · simp only [hv, if_true, decide_true]
      omega
    · simp only [hv, if_false, decide_false, Bool.false_eq_true, Nat.add_zero]

/-- A byte that is no destination byte of a redirected entry is kept. -/
theorem redirectAll_kept (vectors : List (ℕ × ℕ)) (s : Bytes × ℕ)
    (h : ¬ IsRedirected rewrite vectors i) :
    (vectors.foldl (redirect rewrite offset) s).1[i]? = s.1[i]? := by
  induction vectors generalizing s with
  | nil => rfl
  | cons v vectors ih =>
    have hrest : ¬ IsRedirected rewrite vectors i := fun ⟨u, hu, hred⟩ =>
      h ⟨u, List.mem_cons_of_mem v hu, hred⟩
    rw [List.foldl_cons, ih _ hrest]
    unfold redirect
    split
    next hv =>
      have hne : ∀ k, (k = 2 ∨ k = 3) → v.1 + k ≠ i := by
        rintro k hk rfl
        refine h ⟨v, List.mem_cons_self, hv, ?_⟩
        rcases hk with rfl | rfl
        · exact .inl rfl
        · exact .inr rfl
      rw [List.getElem?_set_ne (hne 3 (.inr rfl)), List.getElem?_set_ne (hne 2 (.inl rfl))]
    next => rfl

/-- The word address of a redirected entry. -/
def redirectedJmp (offset addr : ℕ) : ℕ := (addr % 2 ^ 32 + offset) % 2 ^ 32 / 2

/-- The destination bytes of a redirected entry are those of its new destination. -/
theorem redirectAll_set (offset : ℕ) {vectors : List (ℕ × ℕ)}
    (hapart : vectors.Pairwise fun u v => u.1 + 4 ≤ v.1) (s : Bytes × ℕ) (hv : v ∈ vectors)
    (hrewrite : v.2 = rewrite) (hroom : v.1 + 4 ≤ s.1.length) :
    (vectors.foldl (redirect rewrite offset) s).1[v.1 + 2]? =
        some (UInt8.ofNat (redirectedJmp offset v.1 &&& 0xff)) ∧
      (vectors.foldl (redirect rewrite offset) s).1[v.1 + 3]? =
        some (UInt8.ofNat ((redirectedJmp offset v.1 >>> 8) &&& 0xff)) := by
  induction vectors generalizing s with
  | nil => simp at hv
  | cons u vectors ih =>
    rw [List.pairwise_cons] at hapart
    rw [List.foldl_cons]
    rcases List.mem_cons.mp hv with rfl | hmem
    · -- the entries behind this one stand four bytes further
      have hlater : ∀ k < 4, ¬ IsRedirected rewrite vectors (v.1 + k) := by
        rintro k hk ⟨u, hu, -, hi⟩
        have := hapart.1 u hu
        omega
      rw [redirectAll_kept vectors _ (hlater 2 (by omega)),
        redirectAll_kept vectors _ (hlater 3 (by omega))]
      unfold redirect redirectedJmp
      rw [if_pos hrewrite]
      constructor
      · rw [List.getElem?_set_ne (by omega), List.getElem?_set_self (by omega)]
      · rw [List.getElem?_set_self (by rw [List.length_set]; omega)]
    · exact ih hapart.2 _ hmem (by rwa [redirect_length])

end Bytes

/-! ## The table afterwards -/

/-- The two bytes of a word address below `2 ^ 16` give it back. -/
theorem wordAddress_bytes {jmp : ℕ} (h : jmp < 2 ^ 16) :
    (UInt8.ofNat ((jmp >>> 8) &&& 0xff)).toNat <<< 8 ||| (UInt8.ofNat (jmp &&& 0xff)).toNat =
      jmp := by
  have hlow : (UInt8.ofNat (jmp &&& 0xff)).toNat = jmp % 2 ^ 8 := by
    rw [show jmp &&& 0xff = jmp % 2 ^ 8 from Nat.and_two_pow_sub_one_eq_mod jmp 8,
      UInt8.toNat_ofNat_of_lt' (by simp only [UInt8.size]; omega)]
  have hhigh : (UInt8.ofNat ((jmp >>> 8) &&& 0xff)).toNat = jmp / 2 ^ 8 := by
    rw [show jmp >>> 8 &&& 0xff = (jmp >>> 8) % 2 ^ 8 from
        Nat.and_two_pow_sub_one_eq_mod (jmp >>> 8) 8, Nat.shiftRight_eq_div_pow,
      UInt8.toNat_ofNat_of_lt' (by simp only [UInt8.size]; omega)]
    omega
  rw [hlow, hhigh, Nat.shiftLeft_eq, mul_comm, ← Nat.two_pow_add_eq_or_of_lt (by omega)]
  omega

section Rewritten

variable {data : Bytes} {rewrite offset : ℕ}

/-- What the walk reads at a place of the table, before and after. -/
theorem rewriteVectors_getD (h : ¬ IsRedirected rewrite (vectorDestinations data) i) :
    (rewriteVectors data rewrite offset).1.getD i 0 = data.getD i 0 := by
  exact congrArg (Option.getD · 0) (redirectAll_kept _ _ h)

/-- The destination bytes stand at the places 2 and 3 modulo 4. -/
theorem not_isRedirected_of_mod (hi : i % 4 < 2) :
    ¬ IsRedirected rewrite (vectorDestinations data) i := by
  rintro ⟨v, hv, -, h⟩
  have hmod : v.1 % 4 = firstVector % 4 := (vectorsFrom_mem hv).2.2.1
  unfold firstVector at hmod
  omega

/-- Two entries share no byte. -/
theorem isRedirected_destination (hv : v ∈ vectorDestinations data) {k : ℕ} (hk : k = 2 ∨ k = 3) :
    IsRedirected rewrite (vectorDestinations data) (v.1 + k) ↔ v.2 = rewrite := by
  constructor
  · rintro ⟨u, hu, hrewrite, hi⟩
    obtain ⟨-, -, humod, hudst⟩ := vectorsFrom_mem hu
    obtain ⟨-, -, hvmod, hvdst⟩ := vectorsFrom_mem hv
    have hplace : u.1 = v.1 := by
      unfold firstVector at humod hvmod
      omega
    rw [hvdst, ← hplace, ← hudst, hrewrite]
  · intro hrewrite
    refine ⟨v, hv, hrewrite, ?_⟩
    rcases hk with rfl | rfl
    · exact .inl rfl
    · exact .inr rfl

/-- The destination read afterwards. -/
theorem destinationAt_rewriteVectors (rewrite : ℕ) (heven : 2 ∣ offset)
    (hroom : offset + data.length < 2 ^ 17) (hv : v ∈ vectorDestinations data) :
    destinationAt (rewriteVectors data rewrite offset).1 v.1 =
      if v.2 = rewrite then v.1 + offset else v.2 := by
  obtain ⟨hlen, -, hmod, hdst⟩ := vectorsFrom_mem hv
  unfold destinationAt
  split
  next hrewrite =>
    have hapart : (vectorDestinations data).Pairwise fun u v => u.1 + 4 ≤ v.1 := vectorsFrom_apart
    have hbytes := redirectAll_set offset hapart (data, 0) hv hrewrite hlen
    obtain ⟨hlow, hhigh⟩ := hbytes
    have hjmp : redirectedJmp offset v.1 = (v.1 + offset) / 2 := by
      unfold redirectedJmp
      rw [Nat.mod_eq_of_lt (a := v.1) (by omega), Nat.mod_eq_of_lt (by omega)]
    rw [List.getD_eq_getElem?_getD, List.getD_eq_getElem?_getD]
    unfold rewriteVectors
    rw [hlow, hhigh, Option.getD_some, Option.getD_some, wordAddress_bytes (by omega), hjmp]
    unfold firstVector at hmod
    omega
  next hrewrite =>
    have hkept : ∀ k, k = 2 ∨ k = 3 →
        (rewriteVectors data rewrite offset).1.getD (v.1 + k) 0 = data.getD (v.1 + k) 0 :=
      fun k hk => rewriteVectors_getD fun h => hrewrite ((isRedirected_destination hv hk).mp h)
    rw [hkept 3 (.inr rfl), hkept 2 (.inl rfl)]
    exact hdst.symm

/-- The walk goes the same way afterwards.  At a place that is no entry the opcode is missing in
both, and an entry keeps its opcode. -/
theorem vectorsFrom_rewriteVectors (rewrite : ℕ) (heven : 2 ∣ offset)
    (hroom : offset + data.length < 2 ^ 17) (fuel addr : ℕ) (haddr : addr % 4 = 0)
    (hsub : ∀ v ∈ vectorsFrom data fuel addr, v ∈ vectorDestinations data) :
    vectorsFrom (rewriteVectors data rewrite offset).1 fuel addr =
      (vectorsFrom data fuel addr).map fun v =>
        (v.1, if v.2 = rewrite then v.1 + offset else v.2) := by
  induction fuel generalizing addr with
  | zero => rfl
  | succ fuel ih =>
    have hlen : (rewriteVectors data rewrite offset).1.length = data.length :=
      redirectAll_length _ _
    have hop : ∀ k < 2, (rewriteVectors data rewrite offset).1.getD (addr + k) 0 =
        data.getD (addr + k) 0 :=
      fun k hk => rewriteVectors_getD (not_isRedirected_of_mod (by omega))
    have hop0 := hop 0 (by omega)
    rw [Nat.add_zero] at hop0
    rw [vectorsFrom] at hsub
    rw [vectorsFrom, vectorsFrom, hlen, hop0, hop 1 (by omega)]
    split
    next hfits =>
      rw [if_pos hfits] at hsub
      split
      · rfl
      next hjmp =>
        rw [if_neg hjmp] at hsub
        have hhead : (addr, destinationAt data addr) ∈ vectorDestinations data :=
          hsub _ List.mem_cons_self
        have hdst := destinationAt_rewriteVectors rewrite heven hroom hhead
        rw [List.map_cons, ih (addr + 4) (by omega)
          fun v hv => hsub v (List.mem_cons_of_mem _ hv)]
        exact congrArg (fun dst => (addr, dst) :: _) hdst
    next => rfl

theorem vectorDestinations_rewriteVectors (heven : 2 ∣ offset)
    (hroom : offset + data.length < 2 ^ 17) :
    vectorDestinations (rewriteVectors data rewrite offset).1 =
      (vectorDestinations data).map fun v =>
        (v.1, if v.2 = rewrite then v.1 + offset else v.2) := by
  have hlen : (rewriteVectors data rewrite offset).1.length = data.length :=
    redirectAll_length _ _
  have hwalk := vectorsFrom_rewriteVectors rewrite heven hroom data.length firstVector rfl
    (fun v hv => hv)
  unfold vectorDestinations at hwalk ⊢
  rw [hlen]
  exact hwalk

end Rewritten

/-- **Redirection.**  The entries are found where they were; those that jumped to `rewrite` jump to
the same entry of the table at `offset`, the others where they did.  Nothing but the destination
bytes of the redirected entries is changed, and these entries are counted.
SOURCE: apps/ihex.rs:37-92, 255-266 -/
theorem rewriteVectors_table (data : List UInt8) (rewrite offset : ℕ) (heven : 2 ∣ offset)
    (hroom : offset + data.length < 2 ^ 17) :
    vectorDestinations (rewriteVectors data rewrite offset).1 =
        ((vectorDestinations data).map fun v =>
          (v.1, if v.2 = rewrite then v.1 + offset else v.2)) ∧
      (rewriteVectors data rewrite offset).1.length = data.length ∧
      (∀ i, ¬ IsRedirected rewrite (vectorDestinations data) i →
        (rewriteVectors data rewrite offset).1[i]? = data[i]?) ∧
      (rewriteVectors data rewrite offset).1.take 4 = data.take 4 ∧
      (rewriteVectors data rewrite offset).2 =
        (vectorDestinations data).countP fun v => v.2 = rewrite := by
  have hkept : ∀ i, ¬ IsRedirected rewrite (vectorDestinations data) i →
      (rewriteVectors data rewrite offset).1[i]? = data[i]? := fun i h => redirectAll_kept _ _ h
  refine ⟨vectorDestinations_rewriteVectors heven hroom, redirectAll_length _ _, hkept, ?_, ?_⟩
  · -- the reset vector stands before the first entry
    apply List.ext_getElem?
    intro i
    rw [List.getElem?_take, List.getElem?_take]
    split
    next hi =>
      apply hkept
      rintro ⟨v, hv, -, h⟩
      have hle : firstVector ≤ v.1 := (vectorsFrom_mem hv).2.1
      unfold firstVector at hle
      omega
    next => rfl
  · unfold rewriteVectors
    rw [redirectAll_count, Nat.zero_add]

/-- A table of three vectors, two of which are redirected. -/
theorem rewriteVectors_table_three :
    (rewriteVectors [0x0c, 0x94, 0x34, 0x00, 0x0c, 0x94, 0x3e, 0x00, 0x0c, 0x94, 0x00, 0x01,
        0x0c, 0x94, 0x3e, 0x00, 0x11, 0x24] 0x7c 0x2020).2 = 2 ∧
      (rewriteVectors [0x0c, 0x94, 0x34, 0x00, 0x0c, 0x94, 0x3e, 0x00, 0x0c, 0x94, 0x00, 0x01,
        0x0c, 0x94, 0x3e, 0x00, 0x11, 0x24] 0x7c 0x2020).1.take 4 = [0x0c, 0x94, 0x34, 0x00] := by
  have h := rewriteVectors_table [0x0c, 0x94, 0x34, 0x00, 0x0c, 0x94, 0x3e, 0x00, 0x0c, 0x94, 0x00,
    0x01, 0x0c, 0x94, 0x3e, 0x00, 0x11, 0x24] 0x7c 0x2020 (by decide) (by decide)
  exact ⟨h.2.2.2.2.trans (by decide), h.2.2.2.1.trans rfl⟩

end Uartbus.Analysis
