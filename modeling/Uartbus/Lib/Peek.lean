import Mathlib.Data.Int.Notation
import Mathlib.Data.List.Basic
import Mathlib.Data.Nat.Notation

/-!
# Computations that look into a memory

A `Peek` is a computation that may look at the cells of a memory and can learn nothing about it
otherwise.  In a given memory it has a `value` and the list of addresses it looks at (`reads`).
Two memories that agree on those addresses give the same (`value_eq_of_agree`), so bounds on the
addresses are bounds on what the computation depends on.

`readBlock` looks at consecutive cells, and `arrayIn` is a memory with an array at address 0 and
anything around it.
-/

set_option autoImplicit false

namespace Uartbus.Lib

variable {ι β α γ : Type}

inductive Peek (ι β α : Type) where
  | done (a : α)
  /-- Look at the cell `i` and go on with what it holds. -/
  | look (i : ι) (next : β → Peek ι β α)

namespace Peek

def value : Peek ι β α → (ι → β) → α
  | done a, _ => a
  | look i next, mem => (next (mem i)).value mem

/-- The addresses in the order they are looked at. -/
def reads : Peek ι β α → (ι → β) → List ι
  | done _, _ => []
  | look i next, mem => i :: (next (mem i)).reads mem

protected def bind : Peek ι β α → (α → Peek ι β γ) → Peek ι β γ
  | done a, f => f a
  | look i next, f => look i fun b => (next b).bind f

instance : Monad (Peek ι β) where
  pure := done
  bind := Peek.bind

def read (i : ι) : Peek ι β β := look i done

/-- Every address satisfies `P`. -/
def ReadsIn (P : ι → Prop) (m : Peek ι β α) (mem : ι → β) : Prop := ∀ i ∈ m.reads mem, P i

@[simp] theorem value_pure (a : α) (mem : ι → β) : (pure a : Peek ι β α).value mem = a := (rfl)

@[simp] theorem value_read (i : ι) (mem : ι → β) : (read i).value mem = mem i := (rfl)

@[simp] theorem value_bind (m : Peek ι β α) (f : α → Peek ι β γ) (mem : ι → β) :
    (m >>= f).value mem = (f (m.value mem)).value mem := by
  induction m with
  | done a => rfl
  | look i next ih => exact ih (mem i)

@[simp] theorem value_ite (c : Prop) [Decidable c] (m m' : Peek ι β α) (mem : ι → β) :
    (if c then m else m').value mem = if c then m.value mem else m'.value mem := by
  split <;> rfl

theorem reads_bind (m : Peek ι β α) (f : α → Peek ι β γ) (mem : ι → β) :
    (m >>= f).reads mem = m.reads mem ++ (f (m.value mem)).reads mem := by
  induction m with
  | done a => rfl
  | look i next ih => exact congrArg (i :: ·) (ih (mem i))

section ReadsIn

variable {P : ι → Prop} {mem : ι → β}

@[simp] theorem readsIn_pure (a : α) : ReadsIn P (pure a : Peek ι β α) mem := by
  intro i hi
  exact absurd hi List.not_mem_nil

@[simp] theorem readsIn_read (i : ι) : ReadsIn P (read i) mem ↔ P i :=
  List.forall_mem_singleton

@[simp] theorem readsIn_bind (m : Peek ι β α) (f : α → Peek ι β γ) :
    ReadsIn P (m >>= f) mem ↔ ReadsIn P m mem ∧ ReadsIn P (f (m.value mem)) mem := by
  unfold ReadsIn
  rw [reads_bind]
  exact List.forall_mem_append

end ReadsIn

/-- A computation depends on the cells it looks at. -/
theorem value_eq_of_agree (m : Peek ι β α) {mem mem' : ι → β}
    (h : ∀ i ∈ m.reads mem, mem' i = mem i) : m.value mem' = m.value mem := by
  induction m with
  | done a => rfl
  | look i next ih =>
    have hi : mem' i = mem i := h i List.mem_cons_self
    change (next (mem' i)).value mem' = (next (mem i)).value mem
    rw [hi]
    exact ih (mem i) fun j hj => h j (List.mem_cons_of_mem _ hj)

/-! ## Blocks -/

/-- The `n` cells from `base` on. -/
def readBlock : ℤ → (n : ℕ) → Peek ℤ β { cells : List β // cells.length = n }
  | _, 0 => pure ⟨[], rfl⟩
  | base, n + 1 => do
    let cell ← read base
    let rest ← readBlock (base + 1) n
    pure ⟨cell :: rest.1, congrArg (· + 1) rest.2⟩

/-- What they hold. -/
def block (mem : ℤ → β) : ℤ → ℕ → List β
  | _, 0 => []
  | base, n + 1 => mem base :: block mem (base + 1) n

@[simp] theorem value_readBlock (mem : ℤ → β) (base : ℤ) (n : ℕ) :
    ((readBlock base n).value mem).1 = block mem base n := by
  induction n generalizing base with
  | zero => rfl
  | succ n ih =>
    simp only [readBlock, value_bind, value_read, value_pure, block]
    rw [ih]

@[simp] theorem block_length (mem : ℤ → β) (base : ℤ) (n : ℕ) :
    (block mem base n).length = n := by
  induction n generalizing base with
  | zero => rfl
  | succ n ih => simp only [block, List.length_cons, ih]

theorem block_getD (mem : ℤ → β) (d : β) {base : ℤ} {n k : ℕ} (hk : k < n) :
    (block mem base n).getD k d = mem (base + k) := by
  induction n generalizing base k with
  | zero => omega
  | succ n ih =>
    cases k with
    | zero => simp [block]
    | succ k =>
      rw [block, List.getD_cons_succ, ih (by omega)]
      congr 1
      omega

@[simp] theorem readsIn_readBlock {P : ℤ → Prop} {mem : ℤ → β} (base : ℤ) (n : ℕ) :
    ReadsIn P (readBlock base n) mem ↔ ∀ k < n, P (base + k) := by
  induction n generalizing base with
  | zero => simp [readBlock]
  | succ n ih =>
    simp only [readBlock, readsIn_bind, readsIn_read, readsIn_pure, and_true, ih]
    constructor
    · rintro ⟨hbase, hrest⟩ k hk
      cases k with
      | zero => simpa using hbase
      | succ k =>
        have := hrest k (by omega)
        rwa [show base + ((k + 1 : ℕ) : ℤ) = base + 1 + k by push_cast; omega]
    · intro h
      refine ⟨by simpa using h 0 (by omega), fun k hk => ?_⟩
      have := h (k + 1) (by omega)
      rwa [show base + ((k + 1 : ℕ) : ℤ) = base + 1 + k by push_cast; omega] at this

end Peek

/-- A memory with the array `data` at address 0. -/
def arrayIn (data : List β) (outside : ℤ → β) (i : ℤ) : β :=
  if 0 ≤ i then (data[i.toNat]?).getD (outside i) else outside i

theorem arrayIn_natCast {data : List β} {i : ℕ} (hi : i < data.length) (outside : ℤ → β) :
    arrayIn data outside i = data[i] := by
  unfold arrayIn
  rw [if_pos (by omega), Int.toNat_natCast, List.getElem?_eq_getElem hi]
  rfl

/-- A block within the array. -/
theorem block_arrayIn (data : List β) (outside : ℤ → β) {base n : ℕ}
    (hfit : base + n ≤ data.length) :
    Peek.block (arrayIn data outside) base n = (data.drop base).take n := by
  induction n generalizing base with
  | zero => simp [Peek.block]
  | succ n ih =>
    have hbase : base < data.length := by omega
    have hnext := ih (show base + 1 + n ≤ data.length by omega)
    push_cast at hnext
    rw [Peek.block, hnext, List.drop_eq_getElem_cons hbase, List.take_succ_cons,
      arrayIn_natCast hbase]

end Uartbus.Lib
