import Uartbus.Interface.NodePaths

/-!
# Dispatch over the tree of namespaces

One round of the loop takes one byte of the payload and goes to a sub-node; a function that is
selected is called at once.  So a whole dispatch calls the function that `locate` finds in the
payload, or none.
-/

set_option autoImplicit false

namespace Uartbus.Analysis

open Lib Interface Model

variable {F : Type} {ext : F → ℕ → RpcDispatchMode → Bool} {payload rest : Bytes}
  {outside : ℤ → UInt8}

/-- The indexes of the payload. -/
def InPayload (payload : Bytes) (i : ℤ) : Prop := 0 ≤ i ∧ i < payload.length

/-- The next byte of the payload. -/
theorem payload_at {p : ℕ} {b : UInt8} (h : payload.drop p = b :: rest) :
    p < payload.length ∧ payload.drop (p + 1) = rest ∧
      ∀ outside, arrayIn payload outside (p : ℤ) = b := by
  have hlt : p < payload.length := by
    have hlength := congrArg List.length h
    rw [List.length_drop, List.length_cons] at hlength
    omega
  rw [List.drop_eq_getElem_cons hlt, List.cons.injEq] at h
  refine ⟨hlt, h.2, fun outside => ?_⟩
  rw [arrayIn_natCast hlt, h.1]

/-- What a dispatch does when the rest of the payload from `p` on leads to a function. -/
def outcomeAt (p : ℕ) : Option (F × ℕ) → RpcOutcome F
  | some r => ⟨[.plain r.1 (p + r.2)], [], true⟩
  | none => .refused

theorem outcomeAt_map (p : ℕ) (r : Option (F × ℕ)) :
    outcomeAt p (r.map fun r => (r.1, r.2 + 1)) = outcomeAt (p + 1) r := by
  cases r with
  | none => rfl
  | some r =>
    have hsum : p + (r.2 + 1) = p + 1 + r.2 := by omega
    simp only [Option.map_some, outcomeAt, hsum]

/-- The loop at a namespace: what it does with enough fuel, and that it reads the payload only. -/
theorem dispatchLoop_space (hsize : payload.length < 256) {ns : UInt8} {texts : NodeTexts}
    {subNodes : List (RpcNode F)} (hwf : WellFormedNode (.space ns texts subNodes)) {p : ℕ}
    (hrest : payload.drop p = rest) (fuel : ℕ) :
    (rest.length + 2 ≤ fuel →
      (dispatchLoop ext .request payload.length fuel (some (.space ns texts subNodes)) p).value
          (arrayIn payload outside) =
        some (outcomeAt p (locate (.space ns texts subNodes) rest))) ∧
    (dispatchLoop ext .request payload.length fuel (some (.space ns texts subNodes)) p).ReadsIn
      (InPayload payload) (arrayIn payload outside) := by
  induction rest generalizing ns texts subNodes p fuel with
  | nil =>
    have hend : ¬ p < payload.length := Nat.not_lt.mpr (List.drop_eq_nil_iff.mp hrest)
    cases fuel with
    | zero => exact ⟨fun h => absurd h (Nat.not_succ_le_zero _), Peek.readsIn_pure _⟩
    | succ fuel =>
      rw [dispatchLoop, if_neg hend]
      exact ⟨fun _ => rfl, Peek.readsIn_pure _⟩
  | cons b rest ih =>
    obtain ⟨hlt, hnext, hcell⟩ := payload_at hrest
    cases fuel with
    | zero => exact ⟨fun h => absurd h (Nat.not_succ_le_zero _), Peek.readsIn_pure _⟩
    | succ fuel =>
      rw [dispatchLoop, if_pos hlt]
      simp only [selectSubNode, Peek.value_bind, Peek.readsIn_bind, Peek.value_read,
        Peek.value_pure, Peek.readsIn_read, Peek.readsIn_pure, hcell outside,
        Nat.mod_eq_of_lt (show p + 1 < 256 by omega), locate]
      have hread : InPayload payload p := ⟨by omega, by omega⟩
      cases hget : rpcGetNs (.space ns texts subNodes) b with
      | none =>
        cases fuel with
        | zero => exact ⟨fun h => by omega, ⟨hread, trivial⟩, Peek.readsIn_pure _⟩
        | succ fuel => exact ⟨fun _ => rfl, ⟨hread, trivial⟩, Peek.readsIn_pure _⟩
      | some sub =>
        have hsub := hwf.sub (rpcGetNs_mem hget).1
        cases sub with
        | advanced ns' texts' f => cases hsub
        | function ns' texts' f =>
          refine ⟨fun _ => ?_, ⟨hread, trivial⟩, Peek.readsIn_pure _⟩
          simp [callNode, outcomeAt]
        | space ns' texts' subNodes' =>
          obtain ⟨hvalue, hreads⟩ := ih hsub hnext fuel
          refine ⟨fun hfuel => ?_, ⟨hread, trivial⟩, hreads⟩
          rw [outcomeAt_map]
          exact hvalue (by rw [List.length_cons] at hfuel; omega)

/-- The whole dispatch of a request. -/
theorem dispatch_request (ext : F → ℕ → RpcDispatchMode → Bool) (outside : ℤ → UInt8)
    (hsize : payload.length < 256) (hne : payload ≠ []) {root : RpcNode F}
    (hwf : WellFormedNode root) (fuel : ℕ) :
    (payload.length + 2 ≤ fuel →
      (rpcDispatchWithMode ext fuel root payload.length 0 .request).value
          (arrayIn payload outside) = some (outcomeAt 0 (locate root payload))) ∧
    (rpcDispatchWithMode ext fuel root payload.length 0 .request).ReadsIn
      (InPayload payload) (arrayIn payload outside) := by
  unfold rpcDispatchWithMode
  cases root with
  | advanced ns texts f => cases hwf
  | space ns texts subNodes => exact dispatchLoop_space hsize hwf List.drop_zero fuel
  | function ns texts f =>
    -- a function as the root is called with nothing read
    cases fuel with
    | zero => exact ⟨fun h => absurd h (Nat.not_succ_le_zero _), Peek.readsIn_pure _⟩
    | succ fuel =>
      rw [dispatchLoop, if_pos (List.length_pos_of_ne_nil hne)]
      simp [selectSubNode, callNode, outcomeAt]

/-- A dispatch calls the function that the payload leads to, once and with `procPtr` behind its
path, or nothing; it ends, and it reads the payload only.
SOURCE: rpc_node.c:101-157, 290-312 -/
theorem rpcDispatchRoot_follows (ext : F → ℕ → RpcDispatchMode → Bool) {root : RpcNode F}
    (hwf : WellFormedNode root) {first : UInt8} {rest : List UInt8}
    (hsize : (first :: rest).length < 256) (hresponse : first ≠ 0) (hreflect : first ≠ 255)
    (outside : ℤ → UInt8) :
    ∃ outcome,
      (∀ fuel, (first :: rest).length + 2 ≤ fuel →
        (rpcDispatchRoot ext fuel root (first :: rest).length 0).value
          (arrayIn (first :: rest) outside) = some outcome) ∧
      (∀ fuel, (rpcDispatchRoot ext fuel root (first :: rest).length 0).ReadsIn
        (InPayload (first :: rest)) (arrayIn (first :: rest) outside)) ∧
      (∀ f k, outcome = ⟨[.plain f k], [], true⟩ ↔
        k ≤ (first :: rest).length ∧ LeadsToFunction root ((first :: rest).take k) f) ∧
      (LeavesTree root (first :: rest) ∨ EndsAtSpace root (first :: rest) →
        outcome = ⟨[], [], false⟩) := by
  have hcell : arrayIn (first :: rest) outside ((0 : ℕ) : ℤ) = first := rfl
  have hstart : ¬ 0 ≥ (first :: rest).length := Nat.not_le.mpr (Nat.succ_pos _)
  have hdispatch := dispatch_request ext outside hsize (List.cons_ne_nil first rest) hwf
  refine ⟨outcomeAt 0 (locate root (first :: rest)), ?_, ?_, ?_, ?_⟩
  · intro fuel hfuel
    unfold rpcDispatchRoot
    rw [if_neg hstart]
    simp only [Peek.value_bind, Peek.value_read, hcell, if_neg hresponse, if_neg hreflect]
    exact (hdispatch fuel).1 hfuel
  · intro fuel
    unfold rpcDispatchRoot
    rw [if_neg hstart]
    simp only [Peek.readsIn_bind, Peek.readsIn_read, Peek.value_read, hcell,
      if_neg hresponse, if_neg hreflect]
    exact ⟨⟨Int.le_refl 0, Int.natCast_pos.mpr (Nat.succ_pos _)⟩, (hdispatch fuel).2⟩
  · intro f k
    rw [← locate_eq_some_iff hwf]
    cases locate root (first :: rest) with
    | none => simp [outcomeAt, RpcOutcome.refused]
    | some r =>
      obtain ⟨g, j⟩ := r
      simp [outcomeAt]
  · intro hlost
    rw [locate_eq_none hwf hlost]
    rfl

/-- A text of one byte. -/
def letter : CString := ⟨[65], by decide⟩

def letters : NodeTexts := ⟨letter, letter, letter⟩

/-- The function 7 at `2:5` and the function 9 at `1`. -/
def sampleTree : RpcNode ℕ :=
  .space 0 letters [.function 1 letters 9, .space 2 letters [.function 5 letters 7]]

theorem sampleTree_wellFormed : WellFormedNode sampleTree := by
  refine .space (by decide) (by decide) fun sub hsub => ?_
  rcases List.mem_cons.mp hsub with rfl | hsub
  · exact .function
  · rw [List.mem_singleton.mp hsub]
    refine .space (by decide) (by decide) fun sub hsub => ?_
    rw [List.mem_singleton.mp hsub]
    exact .function

/-- The path 2:5:4 of `sampleTree`. -/
theorem sampleTree_follows : ∃ outcome,
    (rpcDispatchRoot (fun _ _ _ => false) 5 sampleTree 3 0).value (arrayIn [2, 5, 4] fun _ => 0) =
      some outcome ∧ outcome = ⟨[.plain 7 2], [], true⟩ := by
  obtain ⟨outcome, hvalue, -, hcalls, -⟩ := rpcDispatchRoot_follows (fun _ _ _ => false)
    sampleTree_wellFormed (show ([2, 5, 4] : Bytes).length < 256 by decide) (by decide)
    (by decide) fun _ => 0
  refine ⟨outcome, hvalue 5 (by decide), (hcalls 7 2).mpr ⟨by decide, 5, letters, ?_⟩⟩
  refine leadsTo_cons_iff.mpr ⟨.space 2 letters [.function 5 letters 7], by simp, rfl, ?_⟩
  exact leadsTo_cons_iff.mpr ⟨.function 5 letters 7, by simp, rfl, .here _⟩

end Uartbus.Analysis
