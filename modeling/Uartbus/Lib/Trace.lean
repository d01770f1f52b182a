import Mathlib.Data.List.Infix

/-!
# Properties of traces

A trace is a list that grows at its end.  `AtEach P l` says of every entry that `P` holds of
it and of what was before it; `Alternates a b` that a trace consists of `a`, `b`, `a`, `b` and
so on; `since p l` is the part of the trace behind its last mark.  For each, the rule for one
more entry is what proofs over runs need.
-/

set_option autoImplicit false

namespace Uartbus.Lib

variable {α : Type} {P : List α → α → Prop} {l m : List α} {x : α}

/-- `P` holds of every entry of the list, given what was before it. -/
def AtEach (P : List α → α → Prop) (l : List α) : Prop :=
  ∀ before a, before ++ [a] <+: l → P before a

theorem atEach_nil (P : List α → α → Prop) : AtEach P [] := by
  intro before a h
  simp at h

theorem atEach_concat : AtEach P (l ++ [x]) ↔ AtEach P l ∧ P l x := by
  constructor
  · intro h
    refine ⟨fun before a hpre => h before a (hpre.trans (List.prefix_append l [x])), ?_⟩
    exact h l x List.prefix_rfl
  · rintro ⟨hl, hx⟩ before a hpre
    rcases List.prefix_concat_iff.mp hpre with heq | hpre
    · obtain ⟨rfl, hax⟩ := List.append_inj' heq rfl
      simp only [List.cons.injEq, and_true] at hax
      exact hax ▸ hx
    · exact hl before a hpre

theorem forall_mem_concat {P : α → Prop} : (∀ e ∈ l ++ [x], P e) ↔ (∀ e ∈ l, P e) ∧ P x := by
  rw [List.forall_mem_append, List.forall_mem_singleton]

/-- What a longer trace satisfies, its beginnings satisfy. -/
theorem AtEach.of_append (h : AtEach P (l ++ m)) : AtEach P l :=
  fun before a hpre => h before a (hpre.trans (List.prefix_append l m))

/-- Entries that satisfy `P` after anything extend a trace that satisfies it. -/
theorem AtEach.append (h : AtEach P l) (hm : ∀ a ∈ m, ∀ before, P before a) :
    AtEach P (l ++ m) := by
  induction m using List.reverseRecOn with
  | nil => simpa using h
  | append_singleton m x ih =>
    rw [← List.append_assoc, atEach_concat]
    exact ⟨ih fun a ha => hm a (by simp [ha]), hm x (by simp) _⟩

/-- The entries behind the last one that satisfies `p`; all of them when there is none. -/
def since (p : α → Bool) (l : List α) : List α :=
  l.foldl (fun acc a => if p a then [] else acc ++ [a]) []

theorem since_concat (p : α → Bool) (l : List α) (x : α) :
    since p (l ++ [x]) = if p x then [] else since p l ++ [x] := by
  simp [since]

/-- Entries without a new mark are added to the ones since the last mark. -/
theorem since_append {p : α → Bool} (l : List α) (h : ∀ a ∈ m, p a = false) :
    since p (l ++ m) = since p l ++ m := by
  induction m using List.reverseRecOn with
  | nil => simp
  | append_singleton m x ih =>
    rw [← List.append_assoc, since_concat, ih fun a ha => h a (by simp [ha]),
      if_neg (by simp [h x (by simp)]), List.append_assoc]

/-- The list is `a`, `b`, `a`, `b`, ... -/
def Alternates (a b : α) : List α → Prop
  | [] => True
  | x :: l => x = a ∧ Alternates b a l

theorem Alternates.getLast?_eq {a b : α} (h : Alternates a b l) (hx : l.getLast? = some x) :
    x = a ∨ x = b := by
  induction l generalizing a b with
  | nil => simp at hx
  | cons y l ih =>
    obtain ⟨rfl, hl⟩ := h
    cases l with
    | nil =>
      simp only [List.getLast?_singleton, Option.some.injEq] at hx
      exact .inl hx.symm
    | cons z l => exact (ih hl (by simpa using hx)).symm

/-- One more entry: the closing one exactly after an opening one. -/
theorem alternates_concat {a b : α} (hab : a ≠ b) :
    Alternates a b (l ++ [x]) ↔
      Alternates a b l ∧ ((l.getLast? = some a ∧ x = b) ∨ (l.getLast? ≠ some a ∧ x = a)) := by
  induction l generalizing a b with
  | nil => simp [Alternates]
  | cons y l ih =>
    rw [List.cons_append]
    unfold Alternates
    rw [ih hab.symm]
    cases l with
    | nil =>
      aesop
    | cons z l =>
      have hlast : (y :: z :: l).getLast? = (z :: l).getLast? := by simp
      rw [hlast]
      constructor
      · rintro ⟨rfl, hl, hcase⟩
        refine ⟨⟨rfl, hl⟩, ?_⟩
        rcases hcase with ⟨hb, rfl⟩ | ⟨hb, rfl⟩
        · exact .inr ⟨by rw [hb]; simpa using hab.symm, rfl⟩
        · refine .inl ⟨?_, rfl⟩
          obtain ⟨w, hw⟩ := Option.ne_none_iff_exists'.mp
            (show (z :: l).getLast? ≠ none by simp)
          rcases hl.getLast?_eq hw with rfl | rfl
          · exact absurd hw hb
          · exact hw
      · rintro ⟨⟨rfl, hl⟩, hcase⟩
        refine ⟨rfl, hl, ?_⟩
        rcases hcase with ⟨hb, rfl⟩ | ⟨hb, rfl⟩
        · exact .inr ⟨by rw [hb]; simpa using hab, rfl⟩
        · refine .inl ⟨?_, rfl⟩
          obtain ⟨w, hw⟩ := Option.ne_none_iff_exists'.mp
            (show (z :: l).getLast? ≠ none by simp)
          rcases hl.getLast?_eq hw with rfl | rfl
          · exact hw
          · exact absurd hw hb

end Uartbus.Lib
