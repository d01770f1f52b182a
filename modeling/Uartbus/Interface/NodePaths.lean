import Mathlib.Data.List.Nodup
import Uartbus.Model.RpcNode

/-!
# Paths in the tree of namespaces

Where a path leads, as a relation between nodes that does not mention how sub-nodes are looked up:
each byte of the path is the `ns` of a sub-node.  In a well-formed tree the look-up of the source
follows it (`rpcGetNs_eq_some_iff`), and `locate` computes the function a payload leads to.
-/

set_option autoImplicit false

namespace Uartbus.Interface

open Model

variable {F : Type} {ns : UInt8} {texts : NodeTexts} {subNodes : List (RpcNode F)}
  {path : Bytes}

/-- Induction over the tree: a property of all sub-nodes is a property of the namespace. -/
theorem node_induction {P : RpcNode F → Prop}
    (space : ∀ ns texts subNodes, (∀ sub ∈ subNodes, P sub) → P (.space ns texts subNodes))
    (function : ∀ ns texts f, P (.function ns texts f))
    (advanced : ∀ ns texts f, P (.advanced ns texts f)) (node : RpcNode F) : P node :=
  @RpcNode.rec F P (fun subNodes => ∀ sub ∈ subNodes, P sub) space function advanced
    (List.forall_mem_nil _)
    (fun _ _ hhead htail _ hsub => (List.mem_cons.mp hsub).elim (fun h => h ▸ hhead) (htail _))
    node

/-- Every node is a namespace with at most 255 sub-nodes of different `ns`, or a plain
function. -/
inductive WellFormedNode : RpcNode F → Prop where
  | space {ns : UInt8} {texts : NodeTexts} {subNodes : List (RpcNode F)}
      (count : subNodes.length ≤ 255) (distinct : (subNodes.map RpcNode.ns).Nodup)
      (subs : ∀ sub ∈ subNodes, WellFormedNode sub) : WellFormedNode (.space ns texts subNodes)
  | function {ns : UInt8} {texts : NodeTexts} {f : F} : WellFormedNode (.function ns texts f)

/-- The path leads from the first node to the second. -/
inductive LeadsTo : RpcNode F → Bytes → RpcNode F → Prop where
  | here (node : RpcNode F) : LeadsTo node [] node
  | into {ns : UInt8} {texts : NodeTexts} {subNodes : List (RpcNode F)} {sub target : RpcNode F}
      {path : Bytes} (hmem : sub ∈ subNodes) (hrest : LeadsTo sub path target) :
      LeadsTo (.space ns texts subNodes) (sub.ns :: path) target

/-- The path leads to the function `f`. -/
def LeadsToFunction (root : RpcNode F) (path : Bytes) (f : F) : Prop :=
  ∃ ns texts, LeadsTo root path (.function ns texts f)

/-- The payload leaves the tree: a part of it leads to a namespace that has no sub-node for the
next byte. -/
def LeavesTree (root : RpcNode F) (payload : Bytes) : Prop :=
  ∃ path next rest ns texts subNodes, payload = path ++ next :: rest ∧
    LeadsTo root path (.space ns texts subNodes) ∧ ∀ sub ∈ subNodes, sub.ns ≠ next

/-- The payload ends at a namespace. -/
def EndsAtSpace (root : RpcNode F) (payload : Bytes) : Prop :=
  ∃ ns texts subNodes, LeadsTo root payload (.space ns texts subNodes)

/-! ## The look-up -/

theorem rpcGetNs_mem {node sub : RpcNode F} {b : UInt8} (h : rpcGetNs node b = some sub) :
    sub ∈ node.subNodes ∧ sub.ns = b := by
  have hfound := List.find?_some h
  exact ⟨List.mem_of_mem_take (List.mem_of_find?_eq_some h), (of_decide_eq_true hfound).symm⟩

/-- With different `ns`, the look-up finds exactly the sub-node with that `ns`. -/
theorem rpcGetNs_eq_some_iff (h : WellFormedNode (.space ns texts subNodes)) (b : UInt8)
    (sub : RpcNode F) :
    rpcGetNs (.space ns texts subNodes) b = some sub ↔ sub ∈ subNodes ∧ sub.ns = b := by
  cases h with
  | space count distinct subs =>
    refine ⟨rpcGetNs_mem, ?_⟩
    rintro ⟨hmem, rfl⟩
    have hall : (RpcNode.space ns texts subNodes).subNodes.take 256 = subNodes :=
      List.take_of_length_le (Nat.le_succ_of_le count)
    cases hfound : rpcGetNs (.space ns texts subNodes) sub.ns with
    | none =>
      unfold rpcGetNs at hfound
      rw [hall, List.find?_eq_none] at hfound
      exact absurd (decide_eq_true rfl) (hfound sub hmem)
    | some found =>
      obtain ⟨hfoundMem, hns⟩ := rpcGetNs_mem hfound
      rw [List.inj_on_of_nodup_map distinct hfoundMem hmem hns]

theorem rpcGetNs_eq_none_iff (h : WellFormedNode (.space ns texts subNodes)) (b : UInt8) :
    rpcGetNs (.space ns texts subNodes) b = none ↔ ∀ sub ∈ subNodes, sub.ns ≠ b := by
  rw [Option.eq_none_iff_forall_ne_some]
  constructor
  · intro hnone sub hmem hns
    exact hnone sub ((rpcGetNs_eq_some_iff h b sub).mpr ⟨hmem, hns⟩)
  · intro hno sub hsub
    obtain ⟨hmem, hns⟩ := rpcGetNs_mem hsub
    exact hno sub hmem hns

theorem WellFormedNode.sub (h : WellFormedNode (.space ns texts subNodes)) {sub : RpcNode F}
    (hmem : sub ∈ subNodes) : WellFormedNode sub := by
  cases h with
  | space _ _ subs => exact subs sub hmem

/-! ## The function a payload leads to -/

/-- The function, and how many bytes its path takes. -/
def locate : RpcNode F → Bytes → Option (F × ℕ)
  | .function _ _ f, _ => some (f, 0)
  | .advanced _ _ _, _ => none
  | .space _ _ _, [] => none
  | .space ns texts subNodes, b :: rest =>
    match rpcGetNs (.space ns texts subNodes) b with
    | none => none
    | some sub => (locate sub rest).map fun r => (r.1, r.2 + 1)

@[simp] theorem locate_function (ns : UInt8) (texts : NodeTexts) (f : F) (payload : Bytes) :
    locate (.function ns texts f) payload = some (f, 0) := by
  cases payload <;> rfl

theorem leadsTo_cons_iff {b : UInt8} {target : RpcNode F} :
    LeadsTo (.space ns texts subNodes) (b :: path) target ↔
      ∃ sub ∈ subNodes, sub.ns = b ∧ LeadsTo sub path target := by
  constructor
  · intro h
    cases h with
    | into hmem hrest => exact ⟨_, hmem, rfl, hrest⟩
  · rintro ⟨sub, hmem, rfl, hrest⟩
    exact .into hmem hrest

theorem leadsTo_nil_iff {node target : RpcNode F} : LeadsTo node [] target ↔ target = node := by
  constructor
  · intro h
    cases h
    rfl
  · rintro rfl
    exact .here target

/-- A function has no sub-nodes. -/
theorem leadsTo_function_iff {f : F} {target : RpcNode F} :
    LeadsTo (.function ns texts f) path target ↔
      path = [] ∧ target = .function ns texts f := by
  constructor
  · intro h
    cases h
    exact ⟨rfl, rfl⟩
  · rintro ⟨rfl, rfl⟩
    exact .here _

theorem leadsToFunction_function_iff {f g : F} :
    LeadsToFunction (.function ns texts f) path g ↔ path = [] ∧ f = g := by
  unfold LeadsToFunction
  constructor
  · rintro ⟨ns', texts', hleads⟩
    obtain ⟨hpath, hnode⟩ := leadsTo_function_iff.mp hleads
    cases hnode
    exact ⟨hpath, rfl⟩
  · rintro ⟨rfl, rfl⟩
    exact ⟨ns, texts, .here _⟩

theorem not_leadsToFunction_nil {f : F} : ¬ LeadsToFunction (.space ns texts subNodes) [] f := by
  rintro ⟨ns', texts', hleads⟩
  cases leadsTo_nil_iff.mp hleads

theorem leadsToFunction_cons_iff (h : WellFormedNode (.space ns texts subNodes)) {b : UInt8}
    {f : F} :
    LeadsToFunction (.space ns texts subNodes) (b :: path) f ↔
      ∃ sub, rpcGetNs (.space ns texts subNodes) b = some sub ∧ LeadsToFunction sub path f := by
  unfold LeadsToFunction
  simp only [leadsTo_cons_iff, rpcGetNs_eq_some_iff h]
  constructor
  · rintro ⟨ns', texts', sub, hmem, hns, hleads⟩
    exact ⟨sub, ⟨hmem, hns⟩, ns', texts', hleads⟩
  · rintro ⟨sub, ⟨hmem, hns⟩, ns', texts', hleads⟩
    exact ⟨ns', texts', sub, hmem, hns, hleads⟩

/-- `locate` finds the function that a part of the payload leads to. -/
theorem locate_eq_some_iff {node : RpcNode F} (h : WellFormedNode node) (payload : Bytes)
    (f : F) (k : ℕ) : locate node payload = some (f, k) ↔
      k ≤ payload.length ∧ LeadsToFunction node (payload.take k) f := by
  induction payload generalizing node k with
  | nil =>
    cases node with
    | advanced ns texts g => cases h
    | function ns texts g =>
      rw [leadsToFunction_function_iff, List.length_nil, List.take_nil]
      simp only [locate_function, Option.some.injEq, Prod.mk.injEq, true_and, Nat.le_zero,
        eq_comm, and_comm]
    | space ns texts subNodes =>
      rw [List.take_nil]
      exact ⟨fun hnone => (by cases hnone),
        fun hleads => absurd hleads.2 not_leadsToFunction_nil⟩
  | cons b rest ih =>
    cases node with
    | advanced ns texts g => cases h
    | function ns texts g =>
      rw [leadsToFunction_function_iff, List.take_eq_nil_iff]
      simp only [locate_function, Option.some.injEq, Prod.mk.injEq, List.cons_ne_nil, or_false]
      constructor
      · rintro ⟨rfl, rfl⟩
        exact ⟨Nat.zero_le _, rfl, rfl⟩
      · rintro ⟨-, rfl, rfl⟩
        exact ⟨rfl, rfl⟩
    | space ns texts subNodes =>
      cases k with
      | zero =>
        refine ⟨fun hsome => ?_, fun hleads => absurd hleads.2 not_leadsToFunction_nil⟩
        unfold locate at hsome
        split at hsome
        · cases hsome
        · obtain ⟨r, -, hr⟩ := Option.map_eq_some_iff.mp hsome
          cases hr
      | succ k =>
        rw [List.take_succ_cons, leadsToFunction_cons_iff h, List.length_cons,
          Nat.succ_le_succ_iff]
        cases hget : rpcGetNs (.space ns texts subNodes) b with
        | none => simp [locate, hget]
        | some sub =>
          have hsub := ih (h.sub (rpcGetNs_mem hget).1) k
          simp only [locate, hget, Option.map_eq_some_iff, Prod.mk.injEq,
            Nat.add_right_cancel_iff, Option.some.injEq, exists_eq_left']
          rw [← hsub]
          constructor
          · rintro ⟨r, hr, rfl, rfl⟩
            exact hr
          · intro hr
            exact ⟨_, hr, rfl, rfl⟩

/-- A payload that leaves the tree, or ends at a namespace, leads to no function. -/
theorem locate_eq_none {root : RpcNode F} (h : WellFormedNode root) {payload : Bytes}
    (hlost : LeavesTree root payload ∨ EndsAtSpace root payload) : locate root payload = none := by
  rcases hlost with ⟨path, next, rest, ns, texts, subNodes, rfl, hleads, hno⟩ |
    ⟨ns, texts, subNodes, hleads⟩
  · induction path generalizing root with
    | nil =>
      cases leadsTo_nil_iff.mp hleads
      simp only [List.nil_append, locate, (rpcGetNs_eq_none_iff h next).mpr hno]
    | cons b path ih =>
      cases hleads with
      | into hmem hrest =>
        simp only [List.cons_append, locate,
          (rpcGetNs_eq_some_iff h _ _).mpr ⟨hmem, rfl⟩, ih (h.sub hmem) hrest, Option.map_none]
  · induction payload generalizing root with
    | nil =>
      cases leadsTo_nil_iff.mp hleads
      rfl
    | cons b path ih =>
      cases hleads with
      | into hmem hrest =>
        simp only [locate, (rpcGetNs_eq_some_iff h _ _).mpr ⟨hmem, rfl⟩,
          ih (h.sub hmem) hrest, Option.map_none]

/-! ## Reflection requests

What follows the 255 of a reflection request: a walk `10:x:10:y`, a function, and its parameters. -/

/-- Where the walk of a request ends. -/
inductive ReflectionWalk (F : Type) where
  /-- The request ends within the walk. -/
  | cut
  /-- A byte selects no sub-node, and more follows. -/
  | lost
  /-- The node the walk selects, and what follows it. -/
  | arrived (node : RpcNode F) (rest : Bytes)

/-- Functions have no sub-nodes to select, so only the tens count there. -/
def reflectionWalk : RpcNode F → Bytes → ReflectionWalk F
  | _, [] => .cut
  | .space ns texts subNodes, [b] =>
    if b = 10 then .cut else .arrived (.space ns texts subNodes) [b]
  | .space ns texts subNodes, b :: x :: rest =>
    if b = 10 then
      match rpcGetNs (.space ns texts subNodes) x with
      | none => if rest = [] then .cut else .lost
      | some sub => reflectionWalk sub rest
    else .arrived (.space ns texts subNodes) (b :: x :: rest)
  | .function ns texts f, b :: rest =>
    if b = 10 then reflectionWalk (.function ns texts f) rest
    else .arrived (.function ns texts f) (b :: rest)
  | .advanced ns texts f, b :: rest =>
    if b = 10 then reflectionWalk (.advanced ns texts f) rest
    else .arrived (.advanced ns texts f) (b :: rest)

/-- How a request ends. -/
inductive RequestEnd where
  | complete
  /-- It asks for something that does not exist. -/
  | unknown
  /-- It asks for a part of a text and says nothing about which. -/
  | cutAtPart
  /-- It ends early at any other place. -/
  | cut
  deriving DecidableEq, Repr

/-- The parameters of a part: where it starts and how long it may be. -/
def partEnd : Bytes → RequestEnd
  | [] => .cutAtPart
  | [_] => .cut
  | _ :: _ :: _ => .complete

/-- Behind a function for a text: 1 asks for its length, 2 for a part of it. -/
def stringEnd : Bytes → RequestEnd
  | [] => .cut
  | f :: rest =>
    if f = 1 then .complete else if f = 2 then partEnd rest else .unknown

def functionEnd : Bytes → RequestEnd
  | [] => .cut
  | f :: rest =>
    if f = 3 ∨ f = 4 ∨ f = 5 then stringEnd rest
    else if f = 11 then if rest = [] then .cut else .complete
    else if f = 1 ∨ f = 2 ∨ f = 9 then .complete
    else .unknown

def requestEnd (root : RpcNode F) (request : Bytes) : RequestEnd :=
  match reflectionWalk root request with
  | .cut => .cut
  | .lost => .unknown
  | .arrived _ rest => functionEnd rest

/-- The request ends before all of it has come. -/
def EndsEarly (root : RpcNode F) (request : Bytes) : Prop :=
  requestEnd root request = .cut ∨ requestEnd root request = .cutAtPart

end Uartbus.Interface
