import Uartbus.Lib.Threads
import Uartbus.Lib.Trace

/-!
# A flag that is cleared

Calls look at a flag of the shared state before they act, and a call that stops the others clears
it, does what is left to do and ends.  Clearing the flag does not stop a call that has looked
already.  `Cleared` is what the flag does give: behind a stopping call that has ended no call has
passed the flag, when none had at the moment the stopping call ended and nobody sets the flag
again.
-/

set_option autoImplicit false

namespace Uartbus.Lib

/-- How calls use a flag. -/
structure StopFlag (σ τ : Type) where
  flag : σ → Bool
  /-- The call is about to set the flag. -/
  sets : τ → Prop
  /-- The call has found the flag set, and acts without looking again. -/
  passed : τ → Prop
  /-- The call has cleared the flag to stop the others. -/
  stopped : τ → Prop
  /-- The stopping call has one move left. -/
  ending : τ → Prop
  ended : τ → Prop

namespace StopFlag

variable {ι κ σ τ ε : Type} (F : StopFlag σ τ) {T : Threads ι κ σ τ ε} {p : Pool ι σ τ ε}

/-- What a move does to the flag and where it leads. -/
structure Move (s : σ) (l : τ) (s' : σ) (l' : τ) : Prop where
  flag : F.flag s' = true → F.flag s = true ∨ F.sets l
  passed : F.passed l' → F.flag s = true ∨ F.passed l
  stopped : F.stopped l' → F.flag s' = false ∨ F.stopped l
  ended : F.ended l' → F.ending l

/-- The calls of `T` use the flag that way. -/
structure Fits (T : Threads ι κ σ τ ε) : Prop where
  enter_stopped : ∀ op, ¬ F.stopped (T.enter op)
  enter_passed : ∀ op, ¬ F.passed (T.enter op)
  ended_stopped : ∀ l, F.ended l → F.stopped l
  ended_passed : ∀ l, F.ended l → ¬ F.passed l
  next : ∀ choice s l s' l' events, T.next choice s l = some (s', l', events) → F.Move s l s' l'

/-- A stopping call ends while no call has passed the flag, and the flag is not set again. -/
structure Alone (p : Pool ι σ τ ε) (l : τ) : Prop where
  ending : F.ending l → ∀ c ∈ p.calls, ¬ F.passed c.2
  sets : F.sets l → ∀ c ∈ p.calls, ¬ F.stopped c.2

/-- What holds behind a stopping call. -/
structure Cleared (p : Pool ι σ τ ε) : Prop where
  stopped : ∀ c ∈ p.calls, F.stopped c.2 → F.flag p.shared = false
  ended : ∀ c ∈ p.calls, F.ended c.2 → ∀ c' ∈ p.calls, ¬ F.passed c'.2

variable {F}

theorem Cleared.enter (hfits : F.Fits T) (h : F.Cleared p) (op : ι) :
    F.Cleared { p with calls := p.calls ++ [(op, T.enter op)] } := by
  have hfresh := hfits.enter_stopped op
  refine ⟨forall_mem_concat.mpr ⟨h.stopped, fun hstopped => absurd hstopped hfresh⟩,
    forall_mem_concat.mpr ⟨fun c hc hended => ?_, fun hended => ?_⟩⟩
  · exact forall_mem_concat.mpr ⟨h.ended c hc hended, hfits.enter_passed op⟩
  · exact absurd (hfits.ended_stopped _ hended) hfresh

/-- A move keeps the flag cleared when nobody starts again. -/
theorem Cleared.move (hfits : F.Fits T) (h : F.Cleared p) {i : ℕ} {op : ι} {l l' : τ} {s' : σ}
    {log : List (ℕ × ε)} (hcall : p.calls[i]? = some (op, l)) (halone : F.Alone p l)
    (hmove : F.Move p.shared l s' l') : F.Cleared ⟨s', p.calls.set i (op, l'), log⟩ := by
  have hmem : (op, l) ∈ p.calls := List.mem_of_getElem? hcall
  -- the flag stays cleared behind a stopping call
  have hstays : ∀ c ∈ p.calls, F.stopped c.2 → F.flag s' = false := by
    intro c hc hstopped
    by_contra hflag
    rcases hmove.flag (Bool.not_eq_false _ |>.mp hflag) with htrue | hsets
    · rw [h.stopped c hc hstopped] at htrue
      cases htrue
    · exact halone.sets hsets c hc hstopped
  refine ⟨fun c hc hstopped => ?_, fun c hc hended c' hc' => ?_⟩
  · rcases List.mem_or_eq_of_mem_set hc with hc | rfl
    · exact hstays c hc hstopped
    · rcases hmove.stopped hstopped with hfalse | hl
      · exact hfalse
      · exact hstays (op, l) hmem hl
  · rcases List.mem_or_eq_of_mem_set hc with hc | rfl
    · rcases List.mem_or_eq_of_mem_set hc' with hc' | rfl
      · exact h.ended c hc hended c' hc'
      · intro hpassed
        rcases hmove.passed hpassed with htrue | hl
        · rw [h.stopped c hc (hfits.ended_stopped _ hended)] at htrue
          cases htrue
        · exact h.ended c hc hended (op, l) hmem hl
    · -- the stopping call has just ended
      rcases List.mem_or_eq_of_mem_set hc' with hc' | rfl
      · exact halone.ending (hmove.ended hended) c' hc'
      · exact hfits.ended_passed _ hended

/-- **The rule for runs**, with an invariant `J` that may use what holds behind a stopping call. -/
theorem Fits.run (hfits : F.Fits T) {P : Pool ι σ τ ε → τ → Prop} {J : Pool ι σ τ ε → Prop}
    (hP : ∀ p l, P p l → F.Alone p l)
    (henter : ∀ p op, J p → J { p with calls := p.calls ++ [(op, T.enter op)] })
    (hmove : ∀ p i choice op l s' l' events, F.Cleared p → J p → p.calls[i]? = some (op, l) →
      T.next choice p.shared l = some (s', l', events) →
        J ⟨s', p.calls.set i (op, l'), p.log ++ ownedBy i events⟩) {s : σ} {turns : List (Turn ι κ)}
    (hs : J (Pool.start s)) (halong : Along T.step (Threads.MovesIn P) (Pool.start s) turns)
    (hrun : Lib.run T.step (Pool.start s) turns = some p) : F.Cleared p ∧ J p := by
  have hstart : F.Cleared (Pool.start s : Pool ι σ τ ε) :=
    ⟨fun _ hc => (by cases hc), fun _ hc => (by cases hc)⟩
  refine run_invariant (I := fun q => F.Cleared q ∧ J q) (fun q turn q' hq hturn hstep => ?_)
    ⟨hstart, hs⟩ halong hrun
  rcases Threads.step_cases hstep with ⟨op, rfl, rfl⟩ |
    ⟨i, choice, op, l, s', l', events, rfl, hcall, hnext, rfl⟩
  · exact ⟨hq.1.enter hfits op, henter q op hq.2⟩
  · have halone := hP q l (hturn i choice op l rfl hcall)
    exact ⟨hq.1.move hfits hcall halone (hfits.next choice _ _ _ _ _ hnext),
      hmove q i choice op l s' l' events hq.1 hq.2 hcall hnext⟩

end StopFlag

end Uartbus.Lib
