import Uartbus.Analysis.NodeDispatch

/-!
# The reads of reflection requests

The walk and the functions of a reflection request look at the next byte before they know that
there is one.  Only the parameters of a text part are checked, and only for the first of them.

`FollowsWalk` and `AnswersAs` say what the walk and the functions do for each way a request can
end.  In both a first step that reads within the payload can be taken away (`follows_bind`,
`answers_bind`), so the proofs go through the code read by read.
-/

set_option autoImplicit false

namespace Uartbus.Analysis

open Lib Interface Model

variable {F α : Type} {payload : Bytes} {mem : ℤ → UInt8} {node : RpcNode F} {p : ℕ}
  {rest : Bytes}

/-- A dispatch of the request `255` with the given rest. -/
structure ReflectsInBounds (ext : F → ℕ → RpcDispatchMode → Bool) (root : RpcNode F)
    (request : Bytes) (outside : ℤ → UInt8) : Prop where
  terminates : ∃ fuel outcome, (rpcDispatchRoot ext fuel root (255 :: request).length 0).value
    (arrayIn (255 :: request) outside) = some outcome
  inBounds : ∀ fuel, (rpcDispatchRoot ext fuel root (255 :: request).length 0).ReadsIn
    (InPayload (255 :: request)) (arrayIn (255 :: request) outside)
  refuses : EndsEarly root request → ∀ fuel outcome,
    (rpcDispatchRoot ext fuel root (255 :: request).length 0).value
      (arrayIn (255 :: request) outside) = some outcome → outcome.returned = false

/-! ## The walk -/

/-- What a walk that gives a node and a position has to do with where it ends. -/
def FollowsWalk (payload : Bytes) (mem : ℤ → UInt8)
    (m : Look (Option (Option (RpcNode F) × ℕ))) : ReflectionWalk F → Prop
  | .cut => ∀ w, m.value mem = some w → ¬ m.ReadsIn (InPayload payload) mem
  | .lost => m.ReadsIn (InPayload payload) mem ∧ ∀ w, m.value mem = some w → w.1 = none
  | .arrived node rest => m.ReadsIn (InPayload payload) mem ∧
      ∀ w, m.value mem = some w → w.1 = some node ∧ payload.drop w.2 = rest

theorem follows_bind {m : Look α} {f : α → Look (Option (Option (RpcNode F) × ℕ))}
    (hm : m.ReadsIn (InPayload payload) mem) (walk : ReflectionWalk F) :
    FollowsWalk payload mem (m >>= f) walk ↔ FollowsWalk payload mem (f (m.value mem)) walk := by
  cases walk <;> simp only [FollowsWalk, Peek.value_bind, Peek.readsIn_bind, hm, true_and]

/-- A read behind the payload ends a walk that is cut. -/
theorem follows_cut {m : Look (Option (Option (RpcNode F) × ℕ))}
    (hm : ¬ m.ReadsIn (InPayload payload) mem) : FollowsWalk payload mem m .cut := fun _ _ => hm

theorem follows_none (walk : ReflectionWalk F) :
    FollowsWalk payload mem (pure none : Look (Option (Option (RpcNode F) × ℕ))) walk := by
  cases walk with
  | cut => exact fun w hw => (by cases hw)
  | lost | arrived => exact ⟨Peek.readsIn_pure _, by simp⟩

theorem follows_arrived (h : payload.drop p = rest) :
    FollowsWalk payload mem (pure (some (some node, p))) (.arrived node rest) := by
  refine ⟨Peek.readsIn_pure _, fun w hw => ?_⟩
  cases hw
  exact ⟨rfl, h⟩

theorem follows_lost (p : ℕ) :
    FollowsWalk payload mem (pure (some (none, p)) : Look (Option (Option (RpcNode F) × ℕ)))
      .lost := by
  refine ⟨Peek.readsIn_pure _, fun w hw => ?_⟩
  cases hw
  rfl

/-- The end of the payload is not in it. -/
theorem not_inPayload (h : payload.drop p = []) : ¬ InPayload payload p := by
  have hend := List.drop_eq_nil_iff.mp h
  rintro ⟨-, hlt⟩
  omega

theorem inPayload_at {b : UInt8} (h : payload.drop p = b :: rest) : InPayload payload p := by
  obtain ⟨hlt, -, -⟩ := payload_at h
  exact ⟨by omega, by omega⟩

/-- One round of the walk at a node that is not a namespace. -/
theorem reflectLoop_stay {size fuel : ℕ} (hlt : p < size) (hp : p + 1 < 256)
    (hstay : selectSubNode node (p + 1) = pure (some node, p + 1)) :
    reflectLoop size (fuel + 1) (some node) p = reflectWalk fuel node size (p + 1) := by
  rw [reflectLoop, if_pos hlt, Nat.mod_eq_of_lt hp, hstay]
  rfl

variable {outside : ℤ → UInt8}

theorem reflectionWalk_of_ne (node : RpcNode F) {b : UInt8} (hb : b ≠ 10) (rest : Bytes) :
    reflectionWalk node (b :: rest) = .arrived node (b :: rest) := by
  cases node with
  | space ns texts subNodes => cases rest <;> simp only [reflectionWalk, if_neg hb]
  | function | advanced => simp only [reflectionWalk, if_neg hb]

section Round

variable (hsize : payload.length < 256) {fuel : ℕ}
  (ih : ∀ (node : RpcNode F) {p : ℕ} {rest : Bytes}, payload.drop p = rest →
    FollowsWalk payload (arrayIn payload outside) (reflectWalk fuel node payload.length p)
      (reflectionWalk node rest)) (hrest : payload.drop p = 10 :: rest)

include hsize ih hrest

/-- A round of the walk at a namespace. -/
theorem reflectLoop_space {ns : UInt8} {texts : NodeTexts} {subNodes : List (RpcNode F)} :
    FollowsWalk payload (arrayIn payload outside)
      (reflectLoop payload.length (fuel + 1) (some (.space ns texts subNodes)) p)
      (reflectionWalk (.space ns texts subNodes) (10 :: rest)) := by
  obtain ⟨hlt, hnext, -⟩ := payload_at hrest
  rw [reflectLoop, if_pos hlt, Nat.mod_eq_of_lt (show p + 1 < 256 by omega)]
  cases rest with
  | nil =>
    -- the byte that selects a sub-node is missing
    apply follows_cut
    rw [Peek.readsIn_bind, selectSubNode, Peek.readsIn_bind, Peek.readsIn_read]
    exact fun h => not_inPayload hnext h.1.1
  | cons x rest =>
    obtain ⟨hlt', hnext', hcell⟩ := payload_at hnext
    have hselect : (selectSubNode (.space ns texts subNodes) (p + 1)).ReadsIn (InPayload payload)
        (arrayIn payload outside) := by
      rw [selectSubNode, Peek.readsIn_bind, Peek.readsIn_read]
      exact ⟨inPayload_at hnext, Peek.readsIn_pure _⟩
    have hselected : (selectSubNode (.space ns texts subNodes) (p + 1)).value
        (arrayIn payload outside) = (rpcGetNs (.space ns texts subNodes) x, p + 2) := by
      rw [selectSubNode, Peek.value_bind, Peek.value_read, Peek.value_pure, hcell,
        Nat.mod_eq_of_lt (show p + 1 + 1 < 256 by omega)]
    rw [follows_bind hselect, hselected]
    simp only [reflectionWalk, if_true]
    cases rpcGetNs (.space ns texts subNodes) x with
    | none =>
      cases rest with
      | nil =>
        apply follows_cut
        rw [Peek.readsIn_bind, Peek.readsIn_read]
        exact fun h => not_inPayload hnext' h.1
      | cons y rest =>
        have hread : (Peek.read ((p + 2 : ℕ) : ℤ)).ReadsIn (InPayload payload)
            (arrayIn payload outside) :=
          (Peek.readsIn_read _).mpr (inPayload_at hnext')
        refine (follows_bind hread _).mpr ?_
        split
        · cases fuel with
          | zero => exact follows_none _
          | succ fuel => exact follows_lost _
        · exact follows_lost _
    | some sub => exact ih sub hnext'

/-- **A round of the walk.** -/
theorem reflectLoop_follows (node : RpcNode F) :
    FollowsWalk payload (arrayIn payload outside)
      (reflectLoop payload.length (fuel + 1) (some node) p) (reflectionWalk node (10 :: rest)) := by
  obtain ⟨hlt, hnext, -⟩ := payload_at hrest
  cases node with
  | space ns texts subNodes => exact reflectLoop_space hsize ih hrest
  | function | advanced =>
    rw [reflectLoop_stay hlt (by omega) rfl, reflectionWalk, if_pos rfl]
    exact ih _ hnext

end Round

/-- The byte that decides whether there is a walk. -/
theorem reflectWalk_first {fuel : ℕ} (hrest : payload.drop p = rest)
    (hloop : ∀ {rest'}, payload.drop p = 10 :: rest' → FollowsWalk payload (arrayIn payload outside)
      (reflectLoop payload.length fuel (some node) p) (reflectionWalk node (10 :: rest'))) :
    FollowsWalk payload (arrayIn payload outside) (reflectWalk fuel node payload.length p)
      (reflectionWalk node rest) := by
  unfold reflectWalk
  cases rest with
  | nil =>
    apply follows_cut
    rw [Peek.readsIn_bind, Peek.readsIn_read]
    exact fun h => not_inPayload hrest h.1
  | cons b rest =>
    obtain ⟨-, -, hcell⟩ := payload_at hrest
    rw [follows_bind ((Peek.readsIn_read _).mpr (inPayload_at hrest)), Peek.value_read, hcell]
    by_cases hb : b = 10
    · subst hb
      exact hloop hrest
    · rw [if_neg hb, reflectionWalk_of_ne node hb]
      exact follows_arrived hrest

/-- The walk of the code ends where the walk of the request ends. -/
theorem reflectWalk_follows (hsize : payload.length < 256) (fuel : ℕ) (node : RpcNode F) {p : ℕ}
    {rest : Bytes} (hrest : payload.drop p = rest) :
    FollowsWalk payload (arrayIn payload outside) (reflectWalk fuel node payload.length p)
      (reflectionWalk node rest) := by
  induction fuel generalizing node p rest with
  | zero => exact reflectWalk_first hrest fun _ => follows_none _
  | succ fuel ih => exact reflectWalk_first hrest fun h => reflectLoop_follows hsize ih h node

/-! ## The functions -/

/-- What a function has to do with how the request ends.  A cut request is read beyond its end or
answered. -/
def AnswersAs (payload : Bytes) (mem : ℤ → UInt8) (m : Look (RpcOutcome F)) : RequestEnd → Prop
  | .complete | .unknown => m.ReadsIn (InPayload payload) mem
  | .cutAtPart => m.ReadsIn (InPayload payload) mem ∧ (m.value mem).returned = false
  | .cut => m.ReadsIn (InPayload payload) mem → (m.value mem).returned = true

theorem answers_bind {m : Look α} {f : α → Look (RpcOutcome F)}
    (hm : m.ReadsIn (InPayload payload) mem) (ending : RequestEnd) :
    AnswersAs payload mem (m >>= f) ending ↔ AnswersAs payload mem (f (m.value mem)) ending := by
  cases ending <;> simp only [AnswersAs, Peek.value_bind, Peek.readsIn_bind, hm, true_and]

/-- A read behind the payload. -/
theorem answers_cut {f : UInt8 → Look (RpcOutcome F)} (h : payload.drop p = []) :
    AnswersAs payload mem (Peek.read (p : ℤ) >>= f) .cut := by
  intro hreads
  rw [Peek.readsIn_bind, Peek.readsIn_read] at hreads
  exact absurd hreads.1 (not_inPayload h)

/-- A read within the payload. -/
theorem answers_read {b : UInt8} {f : UInt8 → Look (RpcOutcome F)} {ending : RequestEnd}
    (h : payload.drop p = b :: rest)
    (hf : AnswersAs payload (arrayIn payload outside) (f b) ending) :
    AnswersAs payload (arrayIn payload outside) (Peek.read (p : ℤ) >>= f) ending := by
  obtain ⟨-, -, hcell⟩ := payload_at h
  rwa [answers_bind ((Peek.readsIn_read _).mpr (inPayload_at h)), Peek.value_read, hcell]

theorem replyWith_readsIn (hp : p ≤ payload.length) (data : Bytes) :
    (replyWith p data : Look (RpcOutcome F)).ReadsIn (InPayload payload) mem := by
  rw [replyWith, Peek.readsIn_bind, Peek.readsIn_readBlock]
  refine ⟨fun k hk => ⟨by omega, by omega⟩, Peek.readsIn_pure _⟩

theorem replyWith_returned (p : ℕ) (data : Bytes) :
    ((replyWith p data : Look (RpcOutcome F)).value mem).returned = true := by
  rw [replyWith, Peek.value_bind, Peek.value_pure]

/-- A part of a text, at the byte where the part starts. -/
theorem remoteStringPart_answers (str : CString) (hp : p ≤ payload.length)
    (hrest : payload.drop p = rest) :
    AnswersAs payload (arrayIn payload outside)
      (remoteStringPart payload.length p str : Look (RpcOutcome F)) (partEnd rest) := by
  have hlength : rest.length = payload.length - p := by rw [← hrest, List.length_drop]
  unfold remoteStringPart
  cases rest with
  | nil =>
    rw [if_pos (by rw [List.length_nil] at hlength; omega)]
    exact ⟨Peek.readsIn_pure _, rfl⟩
  | cons start rest =>
    obtain ⟨hlt, hnext, -⟩ := payload_at hrest
    rw [if_neg (by omega)]
    refine answers_read hrest ?_
    cases rest with
    | nil =>
      dsimp only
      split
      · exact fun _ => replyWith_returned _ _
      · exact answers_cut hnext
    | cons most rest =>
      change AnswersAs _ _ (if start ≥ UInt8.ofNat str.bytes.length then _ else _) .complete
      split
      · exact replyWith_readsIn hp _
      · refine answers_read hnext ?_
        split
        · exact answers_read hnext (replyWith_readsIn hp _)
        · exact replyWith_readsIn hp _

/-- A function for a text. -/
theorem rpcHandleRemoteString_answers (hsize : payload.length < 256) (str : CString)
    (hrest : payload.drop p = rest) :
    AnswersAs payload (arrayIn payload outside)
      (rpcHandleRemoteString payload.length p str : Look (RpcOutcome F)) (stringEnd rest) := by
  unfold rpcHandleRemoteString
  cases rest with
  | nil => exact answers_cut hrest
  | cons f rest =>
    obtain ⟨hlt, hnext, -⟩ := payload_at hrest
    have hwrap : (p + 1) % 256 = p + 1 := Nat.mod_eq_of_lt (by omega)
    refine answers_read hrest ?_
    rw [if_neg (by omega)]
    refine answers_read hrest ?_
    rw [hwrap]
    by_cases hone : f = 1
    · rw [if_pos hone, stringEnd, if_pos hone]
      exact replyWith_readsIn (by omega) _
    · rw [if_neg hone]
      by_cases htwo : f = 2
      · rw [if_pos htwo, stringEnd, if_neg hone, if_pos htwo]
        exact remoteStringPart_answers str (by omega) hnext
      · rw [if_neg htwo, stringEnd, if_neg hone, if_neg htwo]
        exact Peek.readsIn_pure _

/-- The function 11 and its parameter. -/
theorem nthSubnodeNs_answers (node : RpcNode F) (hrest : payload.drop p = rest) :
    AnswersAs payload (arrayIn payload outside) (nthSubnodeNs node p)
      (if rest = [] then .cut else .complete) := by
  unfold nthSubnodeNs
  cases rest with
  | nil => exact answers_cut hrest
  | cons rns rest =>
    obtain ⟨hlt, -, -⟩ := payload_at hrest
    exact answers_read hrest (replyWith_readsIn (Nat.le_of_lt hlt) _)

/-- **The functions.** -/
theorem rpcHandleNodeReflectionRequest_answers (hsize : payload.length < 256) (node : RpcNode F)
    (hrest : payload.drop p = rest) :
    AnswersAs payload (arrayIn payload outside)
      (rpcHandleNodeReflectionRequest node payload.length p) (functionEnd rest) := by
  unfold rpcHandleNodeReflectionRequest
  cases rest with
  | nil => exact answers_cut hrest
  | cons f rest =>
    obtain ⟨hlt, hnext, -⟩ := payload_at hrest
    have hwrap : (p + 1) % 256 = p + 1 := Nat.mod_eq_of_lt (by omega)
    refine answers_read hrest (answers_read hrest ?_)
    have htext : ∀ str, AnswersAs payload (arrayIn payload outside)
        (rpcHandleRemoteString payload.length (p + 1) str : Look (RpcOutcome F))
        (stringEnd rest) :=
      fun str => rpcHandleRemoteString_answers hsize str hnext
    have hreply : ∀ data, (replyWith (p + 1) data : Look (RpcOutcome F)).ReadsIn
        (InPayload payload) (arrayIn payload outside) :=
      fun data => replyWith_readsIn (by omega) data
    rw [hwrap]
    by_cases hreplies : f = 1 ∨ f = 2 ∨ f = 9
    · rcases hreplies with rfl | rfl | rfl <;> exact hreply _
    by_cases htexts : f = 3 ∨ f = 4 ∨ f = 5
    · rcases htexts with rfl | rfl | rfl <;> exact htext _
    by_cases hnth : f = 11
    · subst hnth
      exact nthSubnodeNs_answers node hnext
    · simp only [not_or] at hreplies htexts
      simp only [functionEnd, hreplies, htexts, hnth, or_self, if_false]
      exact Peek.readsIn_pure _

/-! ## The end of the walk -/

/-- The walk at a node that is not a namespace: `procPtr` grows with every round. -/
theorem reflectLoop_stay_ends {size : ℕ} (hsize : size < 256)
    (hstay : ∀ p, selectSubNode node p = pure (some node, p)) (mem : ℤ → UInt8) (left p : ℕ)
    (hleft : size - p ≤ left) :
    ∃ fuel w, (reflectLoop size fuel (some node) p).value mem = some w := by
  induction left generalizing p with
  | zero =>
    refine ⟨1, (some node, p), ?_⟩
    rw [reflectLoop, if_neg (by omega)]
    rfl
  | succ left ih =>
    by_cases hlt : p < size
    · obtain ⟨fuel, w, hw⟩ := ih (p + 1) (by omega)
      by_cases hpeek : mem ((p + 1 : ℕ) : ℤ) = 10
      · refine ⟨fuel + 1, w, ?_⟩
        rw [reflectLoop_stay hlt (by omega) (hstay _), reflectWalk, Peek.value_bind,
          Peek.value_read, if_pos hpeek]
        exact hw
      · refine ⟨1, (some node, p + 1), ?_⟩
        rw [reflectLoop_stay hlt (by omega) (hstay _), reflectWalk, Peek.value_bind,
          Peek.value_read, if_neg hpeek]
        rfl
    · refine ⟨1, (some node, p), ?_⟩
      rw [reflectLoop, if_neg hlt]
      rfl

/-- The walk ends in every memory, by induction over the tree. -/
theorem reflectLoop_ends {size : ℕ} (hsize : size < 256) (node : RpcNode F) (mem : ℤ → UInt8) :
    ∀ p, ∃ fuel w, (reflectLoop size fuel (some node) p).value mem = some w := by
  induction node using node_induction with
  | function | advanced =>
    exact fun p => reflectLoop_stay_ends hsize (fun _ => rfl) mem (size - p) p (Nat.le_refl _)
  | space ns texts subNodes ih =>
    intro p
    by_cases hlt : p < size
    · have hround : ∀ fuel,
          (reflectLoop size (fuel + 1) (some (.space ns texts subNodes)) p).value mem =
          (if mem (((p + 1) % 256 + 1) % 256 : ℕ) = 10 then
            reflectLoop size fuel (rpcGetNs (.space ns texts subNodes) (mem ((p + 1) % 256 : ℕ)))
              (((p + 1) % 256 + 1) % 256)
          else pure (some (rpcGetNs (.space ns texts subNodes) (mem ((p + 1) % 256 : ℕ)),
            ((p + 1) % 256 + 1) % 256))).value mem := by
        intro fuel
        rw [reflectLoop, if_pos hlt]
        simp only [selectSubNode, Peek.value_bind, Peek.value_read, Peek.value_pure]
      by_cases hpeek : mem (((p + 1) % 256 + 1) % 256 : ℕ) = 10
      · simp only [if_pos hpeek] at hround
        cases hget : rpcGetNs (.space ns texts subNodes) (mem ((p + 1) % 256 : ℕ)) with
        | none =>
          refine ⟨2, (none, ((p + 1) % 256 + 1) % 256), ?_⟩
          rw [hround, hget]
          rfl
        | some sub =>
          obtain ⟨fuel, w, hw⟩ := ih sub (rpcGetNs_mem hget).1 (((p + 1) % 256 + 1) % 256)
          refine ⟨fuel + 1, w, ?_⟩
          rw [hround, hget]
          exact hw
      · simp only [if_neg hpeek] at hround
        exact ⟨1, _, hround 0⟩
    · refine ⟨1, (some (.space ns texts subNodes), p), ?_⟩
      rw [reflectLoop, if_neg hlt]
      rfl

/-! ## Whole requests -/

variable {ext : F → ℕ → RpcDispatchMode → Bool} {root : RpcNode F} {request : Bytes}

section Dispatch

variable (ext : F → ℕ → RpcDispatchMode → Bool) (root : RpcNode F) (fuel : ℕ)
  (hstart : 0 < payload.length) (hcell : mem ((0 : ℕ) : ℤ) = 255)

include hstart hcell

/-- The dispatch is a look at each of the first bytes, the walk, and what follows it. -/
theorem rpcDispatchRoot_reflect :
    (rpcDispatchRoot ext fuel root payload.length 0).value mem =
      (afterWalk payload.length
        ((reflectWalk fuel root payload.length 1).value mem)).value mem := by
  unfold rpcDispatchRoot
  rw [if_neg (Nat.not_le.mpr hstart)]
  simp only [Peek.value_bind, Peek.value_read, hcell]
  rw [if_neg (by decide), if_true, rpcDispatchReflectRequest, Peek.value_bind, Peek.value_bind]

theorem rpcDispatchRoot_reflect_readsIn :
    (rpcDispatchRoot ext fuel root payload.length 0).ReadsIn (InPayload payload) mem ↔
      (reflectWalk fuel root payload.length 1).ReadsIn (InPayload payload) mem ∧
      (afterWalk payload.length ((reflectWalk fuel root payload.length 1).value mem)).ReadsIn
        (InPayload payload) mem := by
  have hzero : InPayload payload ((0 : ℕ) : ℤ) := ⟨Int.le_refl 0, Int.natCast_pos.mpr hstart⟩
  unfold rpcDispatchRoot
  rw [if_neg (Nat.not_le.mpr hstart)]
  simp only [Peek.readsIn_bind, Peek.readsIn_read, Peek.value_read, hcell, hzero, true_and]
  rw [if_neg (by decide), if_true, rpcDispatchReflectRequest, Peek.readsIn_bind,
    Peek.readsIn_bind, Peek.readsIn_read]
  constructor
  · exact fun h => h.2
  · intro h
    have hwalk := h.1
    rw [reflectWalk, Peek.readsIn_bind, Peek.readsIn_read] at hwalk
    exact ⟨hwalk.1, h⟩

end Dispatch

/-- A dispatch with enough fuel ends. -/
theorem rpcDispatchRoot_ends (ext : F → ℕ → RpcDispatchMode → Bool) (root : RpcNode F)
    (hsize : (255 :: request).length < 256) (outside : ℤ → UInt8) :
    ∃ fuel outcome, (rpcDispatchRoot ext fuel root (255 :: request).length 0).value
      (arrayIn (255 :: request) outside) = some outcome := by
  obtain ⟨fuel, w, hw⟩ := reflectLoop_ends hsize root (arrayIn (255 :: request) outside) 1
  have hwalk : ∃ w, (reflectWalk fuel root (255 :: request).length 1).value
      (arrayIn (255 :: request) outside) = some w := by
    rw [reflectWalk, Peek.value_bind, Peek.value_ite]
    split
    · exact ⟨w, hw⟩
    · exact ⟨_, rfl⟩
  obtain ⟨⟨crnt, procPtr⟩, hw⟩ := hwalk
  refine ⟨fuel, ?_⟩
  have hstart : 0 < (255 :: request).length := Nat.succ_pos _
  rw [rpcDispatchRoot_reflect ext root fuel hstart rfl, hw]
  cases crnt with
  | none => exact ⟨_, rfl⟩
  | some crnt =>
    rw [afterWalk, Peek.value_bind]
    exact ⟨_, rfl⟩

/-- What a dispatch that may run out of fuel has to do with how the request ends. -/
def DispatchesTo (payload : Bytes) (mem : ℤ → UInt8) (m : Look (Option (RpcOutcome F))) :
    RequestEnd → Prop
  | .complete | .unknown => m.ReadsIn (InPayload payload) mem
  | .cutAtPart => m.ReadsIn (InPayload payload) mem ∧
      ∀ outcome, m.value mem = some outcome → outcome.returned = false
  | .cut => ∀ outcome, m.value mem = some outcome → m.ReadsIn (InPayload payload) mem →
      outcome.returned = true

theorem dispatches_none (ending : RequestEnd) :
    DispatchesTo payload mem (pure none : Look (Option (RpcOutcome F))) ending := by
  cases ending with
  | complete | unknown => exact Peek.readsIn_pure _
  | cutAtPart => exact ⟨Peek.readsIn_pure _, by simp⟩
  | cut => exact fun outcome h => (by cases h)

theorem dispatches_congr {m m' : Look (Option (RpcOutcome F))}
    (hvalue : m.value mem = m'.value mem)
    (hreads : m.ReadsIn (InPayload payload) mem ↔ m'.ReadsIn (InPayload payload) mem)
    (ending : RequestEnd) :
    DispatchesTo payload mem m ending ↔ DispatchesTo payload mem m' ending := by
  cases ending <;> simp only [DispatchesTo, hvalue, hreads]

theorem AnswersAs.dispatches {m : Look (RpcOutcome F)} {ending : RequestEnd}
    (h : AnswersAs payload mem m ending) :
    DispatchesTo payload mem (m >>= fun outcome => pure (some outcome)) ending := by
  cases ending <;>
    simpa [AnswersAs, DispatchesTo, Peek.value_bind, Peek.readsIn_bind] using h

/-- What follows the walk of the request. -/
theorem afterWalk_dispatches (hsize : payload.length < 256) {walk : ReflectionWalk F} {node rest}
    (hwalk : walk = .arrived node rest) {m : Look (Option (Option (RpcNode F) × ℕ))}
    (hfollows : FollowsWalk payload (arrayIn payload outside) m walk) :
    DispatchesTo payload (arrayIn payload outside)
      (afterWalk payload.length (m.value (arrayIn payload outside))) (functionEnd rest) := by
  subst hwalk
  cases hvalue : m.value (arrayIn payload outside) with
  | none => exact dispatches_none _
  | some w =>
    obtain ⟨hnode, hrest⟩ := hfollows.2 w hvalue
    obtain ⟨crnt, p⟩ := w
    cases hnode
    exact (rpcHandleNodeReflectionRequest_answers hsize node hrest).dispatches

/-- **A whole request.** -/
theorem rpcDispatchRoot_dispatches (ext : F → ℕ → RpcDispatchMode → Bool) (root : RpcNode F)
    (hsize : (255 :: request).length < 256) (fuel : ℕ)
    (outside : ℤ → UInt8) :
    DispatchesTo (255 :: request) (arrayIn (255 :: request) outside)
      (rpcDispatchRoot ext fuel root (255 :: request).length 0) (requestEnd root request) := by
  have hfollows : FollowsWalk (255 :: request) (arrayIn (255 :: request) outside)
      (reflectWalk fuel root (255 :: request).length 1) (reflectionWalk root request) :=
    reflectWalk_follows hsize fuel root rfl
  generalize hpayload : 255 :: request = payload at hfollows ⊢
  have hstart : 0 < payload.length := hpayload ▸ Nat.succ_pos _
  have hcell : arrayIn payload outside ((0 : ℕ) : ℤ) = 255 := hpayload ▸ rfl
  have hvalue := rpcDispatchRoot_reflect ext root fuel hstart hcell
  have hreads := rpcDispatchRoot_reflect_readsIn ext root fuel hstart hcell
  unfold requestEnd
  cases hwalk : reflectionWalk root request with
  | cut =>
    rw [hwalk] at hfollows
    intro outcome houtcome hin
    rw [hvalue] at houtcome
    cases hw : (reflectWalk fuel root payload.length 1).value (arrayIn payload outside) with
    | none =>
      rw [hw] at houtcome
      cases houtcome
    | some w => exact absurd (hreads.mp hin).1 (hfollows w hw)
  | lost =>
    rw [hwalk] at hfollows
    refine hreads.mpr ⟨hfollows.1, ?_⟩
    cases hw : (reflectWalk fuel root payload.length 1).value (arrayIn payload outside) with
    | none => exact Peek.readsIn_pure _
    | some w =>
      obtain ⟨crnt, p⟩ := w
      cases hfollows.2 _ hw
      exact Peek.readsIn_pure _
  | arrived node rest =>
    have hafter := afterWalk_dispatches (hpayload ▸ hsize) hwalk hfollows
    rw [hwalk] at hfollows
    exact (dispatches_congr hvalue (hreads.trans (and_iff_right hfollows.1)) _).mpr hafter

theorem ReflectsInBounds.not_cut (h : ReflectsInBounds ext root request outside)
    (hsize : (255 :: request).length < 256) : requestEnd root request ≠ .cut := by
  intro hcut
  obtain ⟨fuel, outcome, hvalue⟩ := h.terminates
  have hdispatches := rpcDispatchRoot_dispatches ext root hsize fuel outside
  rw [hcut] at hdispatches
  have htrue := hdispatches outcome hvalue (h.inBounds fuel)
  rw [h.refuses (.inl hcut) fuel outcome hvalue] at htrue
  exact Bool.false_ne_true htrue

theorem reflectsInBounds_of_ne_cut (ext : F → ℕ → RpcDispatchMode → Bool)
    (hsize : (255 :: request).length < 256) (hcut : requestEnd root request ≠ .cut)
    (outside : ℤ → UInt8) : ReflectsInBounds ext root request outside := by
  have hdispatches := fun fuel => rpcDispatchRoot_dispatches ext root hsize fuel outside
  refine ⟨rpcDispatchRoot_ends ext root hsize outside, fun fuel => ?_, ?_⟩
  · have hends := hdispatches fuel
    cases hend : requestEnd root request with
    | cut => exact absurd hend hcut
    | cutAtPart =>
      rw [hend] at hends
      exact hends.1
    | complete | unknown =>
      rw [hend] at hends
      exact hends
  · intro hearly fuel outcome hvalue
    have hends := hdispatches fuel
    rw [hearly.resolve_left hcut] at hends
    exact hends.2 outcome hvalue

/-- Reflection requests are read within their bounds, and refused when they end early, exactly when
they do not end early or end right behind the number of a text part.
SOURCE: rpc_node.c:159-312 -/
theorem reflectsInBounds_iff (ext : F → ℕ → RpcDispatchMode → Bool) (root : RpcNode F)
    {request : List UInt8} (hsize : (255 :: request).length ≤ 255) (outside : ℤ → UInt8) :
    ReflectsInBounds ext root request outside ↔
      ¬ EndsEarly root request ∨ requestEnd root request = .cutAtPart := by
  have hlt := Nat.lt_succ_of_le hsize
  constructor
  · intro h
    by_cases hpart : requestEnd root request = .cutAtPart
    · exact .inr hpart
    · exact .inl fun hearly => hpart (hearly.resolve_left (h.not_cut hlt))
  · rintro (hlate | hpart)
    · exact reflectsInBounds_of_ne_cut ext hlt (fun hcut => hlate (.inl hcut)) outside
    · exact reflectsInBounds_of_ne_cut ext hlt (by rw [hpart]; decide) outside

/-- The length of the name of the first sub-node. -/
theorem sampleTree_reflects :
    ReflectsInBounds (fun _ _ _ => false) sampleTree [10, 1, 3, 1] fun _ => 0 :=
  (reflectsInBounds_iff (fun _ _ _ => false) sampleTree (by decide) fun _ => 0).mpr
    (.inl (by unfold EndsEarly; decide))

/-- The request `255` alone. -/
theorem sampleTree_not_reflects :
    ¬ ReflectsInBounds (fun _ _ _ => false) sampleTree [] fun _ => 0 :=
  fun h => h.not_cut (by decide) rfl

end Uartbus.Analysis
