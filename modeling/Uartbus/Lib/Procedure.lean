import Uartbus.Lib.Program

/-!
# Procedures

A procedure is a program over a state that may fail; what it has done to the state stays when it
does.  `Keeps` is safety with an invariant of the state: every request is allowed, the invariant
holds afterwards, and a result is as promised.  `Leads` is the rule of pre- and postconditions for
runs in an environment, and `Stops` says that a run ends.
-/

set_option autoImplicit false

namespace Uartbus.Lib

/-- Requests `ρ`, outcomes `ω`, a state `σ`, errors `ε` and results `α`. -/
def Procedure (ρ ω σ ε α : Type) : Type := σ → Program ρ ω (Except ε α × σ)

namespace Procedure

variable {ρ ω σ τ ε δ α β : Type} {m : Procedure ρ ω σ ε α} {f : α → Procedure ρ ω σ ε β}
  {error : ε → δ}

/-- What comes after a result; an error ends the procedure. -/
def after (f : α → Procedure ρ ω σ ε β) : Except ε α × σ → Program ρ ω (Except ε β × σ)
  | (.ok a, s) => f a s
  | (.error e, s) => .done (.error e, s)

instance : Monad (Procedure ρ ω σ ε) where
  pure a := fun s => .done (.ok a, s)
  bind m f := fun s => (m s).bind (after f)

def fail (e : ε) : Procedure ρ ω σ ε α := fun s => .done (.error e, s)

def read : Procedure ρ ω σ ε σ := fun s => .done (.ok s, s)

def write (s : σ) : Procedure ρ ω σ ε Unit := fun _ => .done (.ok (), s)

def request (r : ρ) : Procedure ρ ω σ ε ω := fun s => .ask r fun w => .done (.ok w, s)

/-- A loop that never ends. -/
def spin : Procedure ρ ω σ ε α := fun _ => .diverge

/-- A procedure on a part of the state, with its errors turned into others. -/
def onPart (part : τ → σ) (update : σ → τ → τ) (error : ε → δ) (m : Procedure ρ ω σ ε α) :
    Procedure ρ ω τ δ α := fun t =>
  (m (part t)).bind fun r =>
    .done (match r.1 with | .ok a => .ok a | .error e => .error (error e), update r.2 t)

/-- One procedure for each element of a list. -/
def forEach (f : α → Procedure ρ ω σ ε Unit) : List α → Procedure ρ ω σ ε Unit
  | [] => pure ()
  | a :: as => do
    f a
    forEach f as

/-- A first part that asks nothing and has a result. -/
theorem bind_done {s s' : σ} {a : α} (h : m s = .done (.ok a, s')) : (m >>= f) s = f a s' := by
  show (m s).bind _ = _
  rw [h]
  rfl

/-! ## Safety -/

section Safety

variable {R : ρ → Prop} {A : ρ → ω → Prop} {I : σ → Prop} {P : α → Prop} {Q : β → Prop}

/-- From the invariant: the requests satisfy `R`, the invariant is kept, and a result satisfies
`Q`, whatever outcomes that satisfy `A` come. -/
def Keeps (R : ρ → Prop) (A : ρ → ω → Prop) (I : σ → Prop) (m : Procedure ρ ω σ ε α)
    (Q : α → Prop) : Prop :=
  ∀ s, I s → (m s).Safe R A fun r => I r.2 ∧ ∀ a, r.1 = .ok a → Q a

theorem Keeps.pure {a : α} (h : P a) : Keeps R A I (pure a : Procedure ρ ω σ ε α) P := by
  intro s hs
  refine ⟨hs, fun b hb => ?_⟩
  cases hb
  exact h

theorem Keeps.fail (e : ε) : Keeps R A I (fail e : Procedure ρ ω σ ε α) P :=
  fun _ hs => ⟨hs, by simp⟩

theorem Keeps.spin : Keeps R A I (spin : Procedure ρ ω σ ε α) P := fun _ _ => trivial

theorem Keeps.read : Keeps R A I (read : Procedure ρ ω σ ε σ) I := by
  intro s hs
  refine ⟨hs, fun b hb => ?_⟩
  cases hb
  exact hs

theorem Keeps.write {s : σ} (h : I s) :
    Keeps R A I (write s : Procedure ρ ω σ ε Unit) fun _ => True :=
  fun _ _ => ⟨h, fun _ _ => trivial⟩

theorem Keeps.request {r : ρ} (h : R r) :
    Keeps R A I (request r : Procedure ρ ω σ ε ω) (A r) := by
  intro s hs
  refine ⟨h, fun w hw => ⟨hs, fun b hb => ?_⟩⟩
  cases hb
  exact hw

theorem Keeps.bind (hm : Keeps R A I m P) (hf : ∀ a, P a → Keeps R A I (f a) Q) :
    Keeps R A I (m >>= f) Q := by
  intro s hs
  refine (hm s hs).bind fun r hr => ?_
  obtain ⟨result, s'⟩ := r
  cases result with
  | ok a => exact hf a (hr.2 a rfl) s' hr.1
  | error e => exact ⟨hr.1, by simp⟩

theorem Keeps.ite {c : Prop} [Decidable c] {n : Procedure ρ ω σ ε α} (hm : c → Keeps R A I m P)
    (hn : ¬ c → Keeps R A I n P) : Keeps R A I (if c then m else n) P := by
  split
  next hc => exact hm hc
  next hc => exact hn hc

theorem Keeps.onPart {J : τ → Prop} {part : τ → σ} {update : σ → τ → τ} (hm : Keeps R A I m P)
    (hpart : ∀ t, J t → I (part t)) (hupdate : ∀ s t, J t → I s → J (update s t)) :
    Keeps R A J (onPart part update error m) P := by
  intro t ht
  refine (hm (part t) (hpart t ht)).bind fun r hr => ⟨hupdate _ _ ht hr.1, fun a ha => ?_⟩
  obtain ⟨result, s'⟩ := r
  cases result with
  | ok b => exact hr.2 a (congrArg Except.ok (Except.ok.inj ha))
  | error e => cases ha

end Safety

/-! ## Runs -/

section Runs

variable {η : Type} {respond : ρ → η → ω × η} {P : σ → η → Prop} {M : Except ε α → σ → η → Prop}
  {Q : Except ε β → σ → η → Prop} {I : σ → Prop}

/-- From `P`, a run that ends leads to `Q`. -/
def Leads (respond : ρ → η → ω × η) (P : σ → η → Prop) (m : Procedure ρ ω σ ε α)
    (M : Except ε α → σ → η → Prop) : Prop :=
  ∀ s w, P s w → ∀ r s' w', (m s).exec respond w = some ((r, s'), w') → M r s' w'

theorem Leads.pure {a : α} (h : ∀ s w, P s w → M (.ok a) s w) :
    Leads respond P (pure a : Procedure ρ ω σ ε α) M := by
  intro s w hP r s' w' hexec
  cases hexec
  exact h s w hP

theorem Leads.fail {e : ε} (h : ∀ s w, P s w → M (.error e) s w) :
    Leads respond P (fail e : Procedure ρ ω σ ε α) M := by
  intro s w hP r s' w' hexec
  cases hexec
  exact h s w hP

theorem Leads.request {r : ρ} {N : Except ε ω → σ → η → Prop}
    (h : ∀ s w, P s w → N (.ok (respond r w).1) s (respond r w).2) :
    Leads respond P (request r : Procedure ρ ω σ ε ω) N := by
  intro s w hP result s' w' hexec
  cases hexec
  exact h s w hP

theorem Leads.bind (hm : Leads respond P m M) (hf : ∀ a, Leads respond (M (.ok a)) (f a) Q)
    (herror : ∀ e s w, M (.error e) s w → Q (.error e) s w) : Leads respond P (m >>= f) Q := by
  intro s w hP r s' w' hexec
  change ((m s).bind (after f)).exec respond w = _ at hexec
  rw [Program.exec_bind] at hexec
  obtain ⟨⟨⟨result, s₁⟩, w₁⟩, hfirst, hsecond⟩ := Option.bind_eq_some_iff.mp hexec
  have hmiddle := hm s w hP result s₁ w₁ hfirst
  cases result with
  | ok a => exact hf a s₁ w₁ hmiddle r s' w' hsecond
  | error e =>
    cases hsecond
    exact herror e _ _ hmiddle

theorem Leads.ite {c : Prop} [Decidable c] {n : Procedure ρ ω σ ε α} (hm : c → Leads respond P m M)
    (hn : ¬ c → Leads respond P n M) : Leads respond P (if c then m else n) M := by
  split
  next hc => exact hm hc
  next hc => exact hn hc

/-- The state that was read is the present one. -/
theorem Leads.read_bind {f : σ → Procedure ρ ω σ ε β}
    (hf : ∀ s₀, Leads respond (fun s w => s = s₀ ∧ P s w) (f s₀) Q) :
    Leads respond P (Procedure.read >>= f) Q := by
  intro s w hP
  exact hf s s w ⟨rfl, hP⟩

theorem Leads.forEach {f : α → Procedure ρ ω σ ε Unit}
    (hf : ∀ a, Leads respond P (f a) fun _ => P) (as : List α) :
    Leads respond P (forEach f as) fun _ => P := by
  induction as with
  | nil => exact .pure fun _ _ h => h
  | cons a as ih => exact .bind (hf a) (fun _ => ih) fun _ _ _ h => h

/-- A procedure on a part of the state: the rest stays, and errors become others. -/
theorem Leads.onPart {part : τ → σ} {update : σ → τ → τ} {P' : τ → η → Prop}
    {N : Except δ α → τ → η → Prop} (hm : ∀ t, Leads respond (fun s w => s = part t ∧ P' t w) m
      fun r s w => N (r.mapError error) (update s t) w) :
    Leads respond P' (m.onPart part update error) N := by
  intro t w hP r t' w' hexec
  unfold Procedure.onPart at hexec
  rw [Program.exec_bind] at hexec
  obtain ⟨⟨⟨result, s₁⟩, w₁⟩, hfirst, hsecond⟩ := Option.bind_eq_some_iff.mp hexec
  have hmiddle := hm t (part t) w ⟨rfl, hP⟩ result s₁ w₁ hfirst
  cases result with
  | ok a =>
    cases hsecond
    exact hmiddle
  | error e =>
    cases hsecond
    exact hmiddle

/-- Only the errors become others. -/
theorem Leads.mapError {N : Except δ α → σ → η → Prop} (hm : Leads respond P m M)
    (hok : ∀ a s w, M (.ok a) s w → N (.ok a) s w)
    (herror : ∀ e s w, M (.error e) s w → N (.error (error e)) s w) :
    Leads respond P (m.onPart id (fun s _ => s) error) N := by
  refine .onPart fun t s w hP r s' w' hexec => ?_
  have hend := hm s w (hP.1 ▸ hP.2) r s' w' hexec
  cases r with
  | ok a => exact hok a s' w' hend
  | error e => exact herror e s' w' hend

/-- From the invariant the run ends, and the invariant is kept. -/
def Stops (respond : ρ → η → ω × η) (I : σ → Prop) (m : Procedure ρ ω σ ε α) : Prop :=
  ∀ s w, I s → ∃ r s' w', (m s).exec respond w = some ((r, s'), w') ∧ I s'

theorem Stops.bind (hm : Stops respond I m) (hf : ∀ a, Stops respond I (f a)) :
    Stops respond I (m >>= f) := by
  intro s w hs
  obtain ⟨result, s₁, w₁, hfirst, hs₁⟩ := hm s w hs
  change ∃ r s' w', ((m s).bind (after f)).exec respond w = some ((r, s'), w') ∧ I s'
  rw [Program.exec_bind, hfirst]
  cases result with
  | ok a => exact hf a s₁ w₁ hs₁
  | error e => exact ⟨_, _, _, rfl, hs₁⟩

theorem Stops.read_bind {f : σ → Procedure ρ ω σ ε β}
    (hf : ∀ s, I s → Stops respond I (f s)) : Stops respond I (Procedure.read >>= f) :=
  fun s w hs => hf s hs s w hs

theorem Stops.pure {a : α} : Stops respond I (pure a : Procedure ρ ω σ ε α) :=
  fun _ _ hs => ⟨_, _, _, rfl, hs⟩

theorem Stops.fail {e : ε} : Stops respond I (fail e : Procedure ρ ω σ ε α) :=
  fun _ _ hs => ⟨_, _, _, rfl, hs⟩

theorem Stops.write {s : σ} (h : I s) : Stops respond I (write s : Procedure ρ ω σ ε Unit) :=
  fun _ _ _ => ⟨_, _, _, rfl, h⟩

theorem Stops.request (r : ρ) : Stops respond I (request r : Procedure ρ ω σ ε ω) :=
  fun _ _ hs => ⟨_, _, _, rfl, hs⟩

theorem Stops.ite {c : Prop} [Decidable c] {n : Procedure ρ ω σ ε α} (hm : c → Stops respond I m)
    (hn : ¬ c → Stops respond I n) : Stops respond I (if c then m else n) := by
  split
  next hc => exact hm hc
  next hc => exact hn hc

/-- A request whose answers are known to satisfy `A`. -/
theorem Stops.request_bind {r : ρ} {A : ω → Prop} (hA : ∀ w, A (respond r w).1)
    {f : ω → Procedure ρ ω σ ε β} (hf : ∀ w, A w → Stops respond I (f w)) :
    Stops respond I (Procedure.request r >>= f) :=
  fun s w hs => hf _ (hA w) s _ hs

theorem Stops.forEach {f : α → Procedure ρ ω σ ε Unit} (hf : ∀ a, Stops respond I (f a))
    (as : List α) : Stops respond I (forEach f as) := by
  induction as with
  | nil => exact .pure
  | cons a as ih => exact (hf a).bind fun _ => ih

end Runs

end Procedure

end Uartbus.Lib
