import Mathlib.Data.List.Nodup
import Mathlib.Data.List.Range
import Uartbus.Lib.Image

/-!
# Blocks of data in an address space

A block is a list of items at consecutive addresses.  Blocks that come one after the other are
joined to stretches: a block that starts where a stretch ends goes on with it, any other one starts
a stretch of its own.  Joining keeps every item at its address (`stretches_perm`), and so it keeps
whether two blocks overlap (`noOverlap_stretches`).

`pieces` cuts a block into blocks of a given size.
-/

set_option autoImplicit false

namespace Uartbus.Lib

variable {α : Type} {a size : ℕ}

structure Block (α : Type) where
  address : ℕ
  data : List α
  deriving DecidableEq, Repr

variable {b : Block α} {blocks : List (Block α)}

namespace Block

/-- The first address behind the block. -/
def stop (b : Block α) : ℕ := b.address + b.data.length

/-- The items with their addresses. -/
def items (b : Block α) : List (α × ℕ) := b.data.zipIdx b.address

def Covers (b : Block α) (a : ℕ) : Prop := b.address ≤ a ∧ a < b.stop

end Block

/-- All items of a list of blocks, with their addresses. -/
def placedItems (blocks : List (Block α)) : List (α × ℕ) := blocks.flatMap Block.items

/-- No address is covered by two of the blocks. -/
def NoOverlap (blocks : List (Block α)) : Prop :=
  blocks.Pairwise fun b c => ∀ a, b.Covers a → ¬ c.Covers a

/-- The block goes on with the first of the blocks that it follows, or stands at the end. -/
def Block.join (b : Block α) : List (Block α) → List (Block α)
  | [] => [b]
  | s :: rest =>
    if b.address = s.stop then ⟨s.address, s.data ++ b.data⟩ :: rest else s :: b.join rest

/-- The stretches that the blocks form, from the first block to the last. -/
def stretches (blocks : List (Block α)) : List (Block α) :=
  blocks.foldl (fun joined b => b.join joined) []

/-- A block starts strictly inside a stretch of the blocks before it. -/
def StartsInside (blocks : List (Block α)) : Prop :=
  ∃ pre b post, blocks = pre ++ b :: post ∧
    ∃ s ∈ stretches pre, s.address < b.address ∧ b.address < s.stop

/-! ## Items and addresses -/

theorem mem_items {x : α} : (x, a) ∈ b.items ↔ PlacedAt b.address b.data a x := by
  rw [Block.items, List.mk_mem_zipIdx_iff_le_and_getElem?_sub, PlacedAt]

theorem mem_placedItems {x : α} :
    (x, a) ∈ placedItems blocks ↔ ∃ b ∈ blocks, PlacedAt b.address b.data a x := by
  simp only [placedItems, List.mem_flatMap, mem_items]

/-- The addresses of a block. -/
theorem items_map_snd (b : Block α) : b.items.map Prod.snd = List.range' b.address b.data.length :=
  List.zipIdx_map_snd ..

theorem mem_items_map_snd : a ∈ b.items.map Prod.snd ↔ b.Covers a := by
  rw [items_map_snd, List.mem_range'_1]
  rfl

theorem mem_placedItems_map_snd :
    a ∈ (placedItems blocks).map Prod.snd ↔ ∃ b ∈ blocks, b.Covers a := by
  rw [placedItems, List.map_flatMap, List.mem_flatMap]
  simp only [mem_items_map_snd]

/-- Blocks without an overlap have every address once. -/
theorem noOverlap_iff_nodup : NoOverlap blocks ↔ ((placedItems blocks).map Prod.snd).Nodup := by
  have hown : ∀ b ∈ blocks, (b.items.map Prod.snd).Nodup := by
    intro b _
    rw [items_map_snd]
    exact List.nodup_range'
  rw [placedItems, List.map_flatMap, List.nodup_flatMap, and_iff_right hown, NoOverlap]
  refine List.Pairwise.iff fun b c => ?_
  simp only [Function.onFun, List.Disjoint, mem_items_map_snd]

/-- An address is in one of the blocks at most. -/
theorem NoOverlap.eq_of_covers (h : NoOverlap blocks) {c : Block α} (hb : b ∈ blocks)
    (hc : c ∈ blocks) (hba : b.Covers a) (hca : c.Covers a) : b = c := by
  have : Std.Symm fun b c : Block α => ∀ a, b.Covers a → ¬ c.Covers a :=
    ⟨fun b c h a hc hb => h a hb hc⟩
  by_contra hne
  exact List.Pairwise.forall h hb hc hne a hba hca

/-! ## Stretches -/

theorem items_append (address : ℕ) (data more : List α) :
    Block.items ⟨address, data ++ more⟩ =
      Block.items ⟨address, data⟩ ++ Block.items ⟨address + data.length, more⟩ :=
  List.zipIdx_append ..

theorem join_perm (b : Block α) (joined : List (Block α)) :
    (placedItems (b.join joined)).Perm (placedItems joined ++ b.items) := by
  induction joined with
  | nil => simp [Block.join, placedItems]
  | cons s rest ih =>
    rw [Block.join]
    split
    case isTrue hstart =>
      have hitems : Block.items ⟨s.address, s.data ++ b.data⟩ = s.items ++ b.items := by
        rw [items_append]
        congr 2
        exact congrArg (Block.mk · b.data) hstart.symm
      simp only [placedItems, List.flatMap_cons, hitems, List.append_assoc]
      exact (List.perm_append_comm).append_left _
    case isFalse =>
      simp only [placedItems, List.flatMap_cons, List.append_assoc]
      exact ih.append_left _

theorem stretches_concat (blocks : List (Block α)) (b : Block α) :
    stretches (blocks ++ [b]) = b.join (stretches blocks) := by
  rw [stretches, List.foldl_append]
  rfl

/-- **Joining moves nothing.** -/
theorem stretches_perm (blocks : List (Block α)) :
    (placedItems (stretches blocks)).Perm (placedItems blocks) := by
  induction blocks using List.reverseRecOn with
  | nil => exact .rfl
  | append_singleton blocks b ih =>
    rw [stretches_concat]
    refine (join_perm b _).trans ?_
    rw [placedItems, placedItems, List.flatMap_append, List.flatMap_singleton]
    exact ih.append_right _

theorem noOverlap_stretches : NoOverlap (stretches blocks) ↔ NoOverlap blocks := by
  rw [noOverlap_iff_nodup, noOverlap_iff_nodup]
  exact ((stretches_perm blocks).map Prod.snd).nodup_iff

theorem stop_of_mem_join {s : Block α} {joined : List (Block α)} (h : s ∈ b.join joined) :
    s.stop = b.stop ∨ s ∈ joined := by
  induction joined with
  | nil => exact .inl (by rw [List.mem_singleton.mp h])
  | cons t rest ih =>
    rw [Block.join] at h
    split at h
    case isTrue hstart =>
      rcases List.mem_cons.mp h with rfl | h
      · refine .inl ?_
        simp only [Block.stop, List.length_append] at hstart ⊢
        omega
      · exact .inr (List.mem_cons_of_mem t h)
    case isFalse =>
      rcases List.mem_cons.mp h with rfl | h
      · exact .inr List.mem_cons_self
      · exact (ih h).imp_right (List.mem_cons_of_mem t)

/-- A stretch ends where a block does. -/
theorem stop_of_mem_stretches :
    ∀ {s : Block α}, s ∈ stretches blocks → ∃ b ∈ blocks, s.stop = b.stop := by
  induction blocks using List.reverseRecOn with
  | nil =>
    intro s h
    exact absurd h List.not_mem_nil
  | append_singleton blocks b ih =>
    intro s h
    rw [stretches_concat] at h
    rcases stop_of_mem_join h with heq | h
    · exact ⟨b, by simp, heq⟩
    · obtain ⟨c, hc, heq⟩ := ih h
      exact ⟨c, by simp [hc], heq⟩

/-! ## Blocks that start inside -/

theorem StartsInside.append (h : StartsInside blocks) (more : List (Block α)) :
    StartsInside (blocks ++ more) := by
  obtain ⟨pre, b, post, rfl, hinside⟩ := h
  exact ⟨pre, b, post ++ more, by simp, hinside⟩

theorem startsInside_concat :
    StartsInside (blocks ++ [b]) ↔
      StartsInside blocks ∨ ∃ s ∈ stretches blocks, s.address < b.address ∧ b.address < s.stop := by
  constructor
  · rintro ⟨pre, c, post, heq, hinside⟩
    rcases List.eq_nil_or_concat post with rfl | ⟨post, last, rfl⟩
    · obtain ⟨rfl, hb⟩ := List.append_inj' heq rfl
      obtain ⟨rfl, -⟩ := List.cons.inj hb
      exact .inr hinside
    · rw [List.concat_eq_append, ← List.cons_append, ← List.append_assoc] at heq
      obtain ⟨rfl, -⟩ := List.append_inj' heq rfl
      exact .inl ⟨pre, c, post, rfl, hinside⟩
  · rintro (h | hinside)
    · exact h.append [b]
    · exact ⟨blocks, b, [], rfl, hinside⟩

/-- Without an overlap only a block without items can start inside a stretch. -/
theorem NoOverlap.data_eq_nil {pre post : List (Block α)} {s : Block α}
    (h : NoOverlap (pre ++ b :: post)) (hs : s ∈ stretches pre) (hlow : s.address < b.address)
    (hhigh : b.address < s.stop) : b.data = [] := by
  by_contra hdata
  have hcovers : ∃ c ∈ pre, c.Covers b.address := by
    rw [← mem_placedItems_map_snd, ← ((stretches_perm pre).map Prod.snd).mem_iff,
      mem_placedItems_map_snd]
    exact ⟨s, hs, hlow.le, hhigh⟩
  obtain ⟨c, hc, hcb⟩ := hcovers
  have hpos := List.length_pos_iff.mpr hdata
  exact (List.pairwise_append.mp h).2.2 c hc b List.mem_cons_self b.address hcb
    ⟨le_rfl, by unfold Block.stop; omega⟩

/-! ## Pieces -/

/-- The block in pieces of `size` items; as many as there are items are enough. -/
def Block.pieces (size : ℕ) : ℕ → Block α → List (Block α)
  | 0, _ => []
  | fuel + 1, b =>
    if b.data.isEmpty then []
    else ⟨b.address, b.data.take size⟩ ::
      Block.pieces size fuel ⟨b.address + size, b.data.drop size⟩

/-- Cutting a block into pieces moves none of its items. -/
theorem pieces_items (hsize : 0 < size) (fuel : ℕ) :
    ∀ b : Block α, b.data.length ≤ fuel → placedItems (b.pieces size fuel) = b.items := by
  induction fuel with
  | zero =>
    intro b hb
    have hnil : b.data = [] := List.length_eq_zero_iff.mp (by omega)
    simp [Block.pieces, placedItems, Block.items, hnil]
  | succ fuel ih =>
    intro b hb
    rw [Block.pieces]
    split
    case isTrue hempty =>
      have hnil : b.data = [] := List.isEmpty_iff.mp hempty
      simp [placedItems, Block.items, hnil]
    case isFalse hne =>
      have hrest := ih ⟨b.address + size, b.data.drop size⟩ (by simp; omega)
      rw [placedItems] at hrest
      rw [placedItems, List.flatMap_cons, hrest]
      have hcut := items_append b.address (b.data.take size) (b.data.drop size)
      rw [List.take_append_drop] at hcut
      rw [show b.items = Block.items ⟨b.address, b.data⟩ from rfl, hcut]
      rcases Nat.le_total size b.data.length with hle | hle
      · rw [List.length_take_of_le hle]
      · simp [Block.items, List.drop_of_length_le hle]

theorem mem_pieces (hsize : 0 < size) (fuel : ℕ) :
    ∀ {b p : Block α}, p ∈ b.pieces size fuel → p.data ≠ [] ∧ p.data.length ≤ size := by
  induction fuel with
  | zero =>
    intro b p hp
    exact absurd hp List.not_mem_nil
  | succ fuel ih =>
    intro b p hp
    rw [Block.pieces] at hp
    split at hp
    case isTrue => exact absurd hp List.not_mem_nil
    case isFalse hne =>
      rcases List.mem_cons.mp hp with rfl | hp
      · refine ⟨?_, List.length_take_le size b.data⟩
        have hpos : 0 < b.data.length := List.length_pos_iff.mpr (by simpa using hne)
        exact List.ne_nil_of_length_pos (by simp; omega)
      · exact ih hp

/-- Where the pieces start. -/
theorem exists_piece_at (hsize : 0 < size) (fuel : ℕ) :
    ∀ b : Block α, b.data.length ≤ fuel → ∀ a, (∃ p ∈ b.pieces size fuel, p.address = a) ↔
      ∃ k, a = b.address + size * k ∧ a < b.stop := by
  induction fuel with
  | zero =>
    intro b hb a
    simp only [Block.pieces, List.not_mem_nil, false_and, exists_false, false_iff, Block.stop]
    omega
  | succ fuel ih =>
    intro b hb a
    rw [Block.pieces]
    split
    case isTrue hempty =>
      have hnil : b.data = [] := List.isEmpty_iff.mp hempty
      simp only [List.not_mem_nil, false_and, exists_false, false_iff, Block.stop, hnil,
        List.length_nil]
      omega
    case isFalse hne =>
      have hpos : 0 < b.data.length := List.length_pos_iff.mpr (by simpa using hne)
      have hrest := ih ⟨b.address + size, b.data.drop size⟩ (by simp; omega) a
      simp only [Block.stop, List.length_drop] at hrest ⊢
      rw [List.exists_mem_cons_iff, hrest]
      constructor
      · rintro (rfl | ⟨k, rfl, hlt⟩)
        · exact ⟨0, by simp, by dsimp only; omega⟩
        · exact ⟨k + 1, by rw [Nat.mul_succ]; omega, by omega⟩
      · rintro ⟨k, rfl, hlt⟩
        cases k with
        | zero => exact .inl (by simp)
        | succ k =>
          rw [Nat.mul_succ] at hlt ⊢
          exact .inr ⟨k, by omega, by omega⟩

end Uartbus.Lib
