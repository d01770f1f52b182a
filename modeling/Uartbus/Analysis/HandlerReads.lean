import Uartbus.Analysis.ReceivedReads

/-!
# The reads of the functions of a device

Every function of the namespaces 1 and 2 reads inside of the payload except `read_code`, which needs
three parameters and does not ask for them (`dispatch_readsIn_iff`).
-/

set_option autoImplicit false

namespace Uartbus.Analysis

open Lib Model

variable {σ : Type} {p : Platform} {chain : List (Option (Device.Handler σ))}
  {func : Device.Handler (DeviceState p)} {req : RequestHead} {impl : DeviceImpl} {i : ℕ}

/-! ## Functions that read inside of the payload -/

/-- The function reads inside of the payload, whatever the memory holds. -/
def Safe (handler : Device.Handler σ) : Prop :=
  ∀ req s mem, req.procPtr ≤ req.size → Peek.ReadsIn (InBounds req.size) (handler req s) mem

theorem inBounds_natCast {n : ℕ} (h : i < n) : InBounds n (i : ℤ) := ⟨by omega, by omega⟩

section Replies

variable {req : RequestHead} {mem : ℤ → UInt8}

theorem rpcResponse_readsIn (hpath : req.procPtr ≤ req.size) {part : Look Bytes}
    (hpart : Peek.ReadsIn (InBounds req.size) part mem) :
    Peek.ReadsIn (InBounds req.size) (Device.rpcResponse p req part) mem := by
  unfold Device.rpcResponse
  simp only [Peek.readsIn_bind, Peek.readsIn_readBlock, Peek.readsIn_pure, and_true, hpart]
  intro k hk
  rw [zero_add]
  exact inBounds_natCast (by omega)

theorem ilReply_readsIn (hpath : req.procPtr ≤ req.size) (bytes : Bytes) (s : σ) :
    Peek.ReadsIn (InBounds req.size) (Device.ilReply p req bytes s) mem := by
  unfold Device.ilReply
  simp only [Peek.readsIn_bind, Peek.readsIn_pure, and_true]
  exact rpcResponse_readsIn hpath (Peek.readsIn_pure _)

end Replies

theorem safe_ilReply (bytes : σ → Bytes) :
    Safe fun req (s : σ) => Device.ilReply p req (bytes s) s :=
  fun _ s _ hpath => ilReply_readsIn hpath (bytes s) s

theorem safe_replay : Safe (Device.rpcBasicReplay (p := p)) := by
  intro req s mem hpath
  unfold Device.rpcBasicReplay Device.ilReplyArr
  simp only [Peek.readsIn_bind, Peek.readsIn_pure, and_true]
  refine rpcResponse_readsIn hpath ?_
  simp only [Peek.readsIn_bind, Peek.readsIn_readBlock, Peek.readsIn_pure, and_true]
  intro k hk
  exact inBounds_natCast (by omega)

theorem safe_userLed (impl : DeviceImpl) : Safe (Device.rpcBasicUserLed (p := p) impl) := by
  intro req s mem hpath
  unfold Device.rpcBasicUserLed
  split
  · simp only [Peek.readsIn_bind, Peek.readsIn_read]
    exact ⟨inBounds_natCast (by omega), ilReply_readsIn hpath _ s⟩
  · exact Peek.readsIn_pure _

theorem safe_powerFunction : Safe (Device.rpcBootloaderPowerFunction (p := p)) := by
  intro req s mem hpath
  unfold Device.rpcBootloaderPowerFunction
  split
  · exact ilReply_readsIn hpath _ s
  · simp only [Peek.readsIn_bind, Peek.readsIn_read]
    refine ⟨inBounds_natCast (by omega), ?_⟩
    split
    · exact Peek.readsIn_pure _
    · split <;> exact Peek.readsIn_pure _

theorem safe_getVar (impl : DeviceImpl) : Safe (Device.rpcBootloaderGetVar (p := p) impl) := by
  intro req s mem hpath
  unfold Device.rpcBootloaderGetVar
  split
  · exact ilReply_readsIn hpath _ s
  · simp only [Peek.readsIn_bind, Peek.readsIn_read]
    exact ⟨inBounds_natCast (by omega), ilReply_readsIn hpath _ s⟩

theorem safe_setVar : Safe (Device.rpcBootloaderSetVar (p := p)) := by
  intro req s mem hpath
  unfold Device.rpcBootloaderSetVar
  split
  · exact ilReply_readsIn hpath _ s
  · simp only [Peek.readsIn_bind, Peek.readsIn_read]
    exact ⟨inBounds_natCast (show req.procPtr + 1 < req.size by omega),
      inBounds_natCast (by omega), ilReply_readsIn hpath _ _⟩

/-- `read_code` reads three parameters. -/
theorem readCode_readsIn_iff (impl : DeviceImpl) (req : RequestHead) (s : DeviceState p)
    (mem : ℤ → UInt8) (hpath : req.procPtr ≤ req.size) :
    Peek.ReadsIn (InBounds req.size) (Device.rpcBootloaderReadCode impl req s) mem ↔
      req.procPtr + 3 ≤ req.size := by
  unfold Device.rpcBootloaderReadCode
  simp only [Peek.readsIn_bind, Peek.readsIn_read]
  constructor
  · rintro ⟨-, -, hthird, -⟩
    have := hthird.2
    omega
  · intro h
    have hfirst : InBounds req.size req.procPtr := inBounds_natCast (by omega)
    have hsecond : InBounds req.size (req.procPtr + 1) :=
      inBounds_natCast (show req.procPtr + 1 < req.size by omega)
    have hthird : InBounds req.size (req.procPtr + 2) :=
      inBounds_natCast (show req.procPtr + 2 < req.size by omega)
    exact ⟨hfirst, hsecond, hthird, hfirst, hsecond, ilReply_readsIn hpath _ s⟩

theorem safe_startFlash : Safe (Device.blfStartFlash (p := p)) := by
  intro req s mem hpath
  have hanswer : ∀ bytes : Bytes,
      Peek.ReadsIn (InBounds req.size) (Device.rpcResponse p req (pure bytes)) mem :=
    fun bytes => rpcResponse_readsIn hpath (Peek.readsIn_pure _)
  unfold Device.blfStartFlash
  rw [Peek.readsIn_bind]
  constructor
  · unfold Device.answerStarted
    split
    · simp only [Peek.readsIn_bind, Peek.readsIn_pure, and_true, hanswer]
    · exact Peek.readsIn_pure _
  · split <;> simp only [Peek.readsIn_bind, Peek.readsIn_pure, and_true, hanswer]

theorem safe_pushCode : Safe (Device.blfPushCode (p := p)) := by
  intro req s mem hpath
  unfold Device.blfPushCode
  split
  · exact ilReply_readsIn hpath _ s
  split
  · exact ilReply_readsIn hpath _ s
  split
  · exact ilReply_readsIn hpath _ s
  rw [Peek.readsIn_bind]
  constructor
  · unfold Device.otherAddress
    simp only [Peek.readsIn_bind, Peek.readsIn_read]
    refine ⟨inBounds_natCast (by omega), ?_⟩
    split
    · exact Peek.readsIn_pure _
    · simp only [Peek.readsIn_bind, Peek.readsIn_read, Peek.readsIn_pure, and_true]
      exact inBounds_natCast (show req.procPtr + 1 < req.size by omega)
  · split
    · exact ilReply_readsIn hpath _ s
    · simp only [Peek.readsIn_bind, Peek.readsIn_readBlock]
      refine ⟨fun k hk => ?_, ilReply_readsIn hpath _ _⟩
      exact ⟨by omega, by omega⟩

theorem safe_commitFlash : Safe (Device.commitFlash (p := p)) := by
  intro req s mem hpath
  unfold Device.commitFlash
  split
  · exact ilReply_readsIn hpath _ s
  split
  · exact ilReply_readsIn hpath _ s
  · exact ilReply_readsIn hpath _ _

/-! ## The dispatch tables -/

/-- A chain reads what the function that it calls reads. -/
theorem dispatchFunctionChain_readsIn_iff (s : σ) (mem : ℤ → UInt8)
    (hpath : req.procPtr ≤ req.size) :
    Peek.ReadsIn (InBounds req.size) (Device.dispatchFunctionChain p chain req s) mem ↔
      (req.procPtr < req.size → ∀ func, chain[(mem req.procPtr).toNat]? = some (some func) →
        Peek.ReadsIn (InBounds req.size) (func { req with procPtr := req.procPtr + 1 } s) mem) := by
  unfold Device.dispatchFunctionChain
  by_cases hlt : req.procPtr < req.size
  · rw [if_pos hlt, Peek.readsIn_bind, Peek.readsIn_read, Peek.value_read]
    simp only [inBounds_natCast hlt, hlt, true_and, true_implies]
    rcases hfunc : chain[(mem req.procPtr).toNat]? with _ | _ | func
    · simp [ilReply_readsIn hpath]
    · simp [ilReply_readsIn hpath]
    · simp
  · rw [if_neg hlt]
    simp only [ilReply_readsIn hpath, hlt, false_implies]

theorem safe_dispatchFunctionChain (h : ∀ (i : ℕ) func, chain[i]? = some (some func) → Safe func) :
    Safe (Device.dispatchFunctionChain p chain) := by
  intro req s mem hpath
  refine (dispatchFunctionChain_readsIn_iff s mem hpath).mpr fun hlt func hfunc => ?_
  exact h _ func hfunc _ s mem hlt

/-- A descriptor chain is a function chain of function chains. -/
theorem dispatchDescriptorChain_eq (chain : List (Option (List (Option (Device.Handler σ))))) :
    Device.dispatchDescriptorChain p chain =
      Device.dispatchFunctionChain p
        (chain.map (Option.map (Device.dispatchFunctionChain p))) := by
  funext req s
  unfold Device.dispatchDescriptorChain Device.dispatchFunctionChain
  split
  · congr 1
    funext index
    rw [List.getElem?_map]
    rcases chain[index.toNat]? with _ | _ | functions <;> rfl
  · rfl

theorem safe_flash : Safe (Device.rpcBootloaderFlash (p := p)) := by
  intro req s mem hpath
  unfold Device.rpcBootloaderFlash
  simp only [Peek.readsIn_bind, Peek.readsIn_pure, and_true]
  refine safe_dispatchFunctionChain (fun i func hfunc => ?_) req s.flash mem hpath
  rcases i with _ | _ | _ | _ | _ | i <;>
    simp only [Device.bootloaderFlashFunctions, List.getElem?_cons_zero, List.getElem?_cons_succ,
      List.getElem?_nil, Option.some.injEq, reduceCtorEq] at hfunc <;> subst hfunc
  · exact safe_ilReply _
  · exact safe_startFlash
  · exact safe_ilReply _
  · exact safe_pushCode
  · exact safe_commitFlash

theorem safe_basic (impl : DeviceImpl) :
    Safe (Device.dispatchFunctionChain p (Device.rpcFunctionsBasic (p := p) impl)) := by
  refine safe_dispatchFunctionChain fun i func hfunc => ?_
  rcases i with _ | _ | _ | _ | _ | i <;>
    simp only [Device.rpcFunctionsBasic, List.getElem?_cons_zero, List.getElem?_cons_succ,
      List.getElem?_nil, Option.some.injEq, reduceCtorEq] at hfunc <;> subst hfunc
  · exact safe_ilReply _
  · exact safe_replay
  · exact safe_userLed impl
  · exact safe_ilReply _
  · exact safe_ilReply _

/-- In namespace 2 all functions but one read inside of the payload. -/
theorem safe_bootloader (hi : i ≠ 3)
    (hfunc : (Device.rpcFunctionsBootloader impl)[i]? = some (some func)) : Safe func := by
  rcases i with _ | _ | _ | _ | _ | i <;>
    simp only [Device.rpcFunctionsBootloader, List.getElem?_cons_zero, List.getElem?_cons_succ,
      List.getElem?_nil, Option.some.injEq, reduceCtorEq] at hfunc <;> subst hfunc
  · exact safe_powerFunction
  · exact safe_getVar impl
  · exact safe_setVar
  · exact absurd rfl hi
  · exact safe_flash

/-- The table that `dispatch_root` walks through, as a function chain. -/
def namespaces (impl : DeviceImpl) : List (Option (Device.Handler (DeviceState p))) :=
  (Device.rpcNsFunctions impl).map (Option.map (Device.dispatchFunctionChain p))

theorem safe_namespaces (hi : i ≠ 2) (hfunc : (namespaces impl)[i]? = some (some func)) :
    Safe func := by
  have hempty : Safe (Device.dispatchFunctionChain (σ := DeviceState p) p []) :=
    safe_dispatchFunctionChain fun i func h => by simp at h
  rcases i with _ | _ | _ | _ | _ | i <;>
    simp only [namespaces, Device.rpcNsFunctions, List.map_cons, List.map_nil, Option.map_some,
      Option.map_none, List.getElem?_cons_zero, List.getElem?_cons_succ, List.getElem?_nil,
      Option.some.injEq, reduceCtorEq] at hfunc <;> subst hfunc
  · exact safe_basic impl
  · exact absurd rfl hi
  · exact hempty
  · exact hempty

/-- The functions of namespace 2: `read_code` needs five bytes with its path. -/
theorem bootloader_readsIn_iff (impl : DeviceImpl) (s : DeviceState p) (req : RequestHead)
    (mem : ℤ → UInt8) (hptr : req.procPtr = 1) (hsize : 1 ≤ req.size) :
    Peek.ReadsIn (InBounds req.size)
        (Device.dispatchFunctionChain p (Device.rpcFunctionsBootloader impl) req s) mem ↔
      (mem 1 = 3 → 1 < req.size → 5 ≤ req.size) := by
  refine (dispatchFunctionChain_readsIn_iff s mem (by omega)).trans ?_
  rw [hptr]
  by_cases hf : mem 1 = 3
  · have hread := readCode_readsIn_iff impl { req with procPtr := 1 + 1 } s mem
    constructor
    · intro h _ hlt
      exact (hread hlt).mp (h hlt _ (by rw [Nat.cast_one, hf]; rfl))
    · intro h hlt func hfunc
      rw [Nat.cast_one, hf] at hfunc
      obtain rfl := Option.some.inj (Option.some.inj hfunc)
      exact (hread hlt).mpr (h hf hlt)
  · refine iff_of_true (fun hlt func hfunc => ?_) fun h => absurd h hf
    have hindex : (mem ((1 : ℕ) : ℤ)).toNat ≠ 3 := fun h => hf (UInt8.toNat_inj.mp h)
    exact safe_bootloader hindex hfunc _ s mem hlt

/-- **The reads of a request.**  All of them are inside of the payload, unless it is a request for
`read_code` that is too short. -/
theorem dispatch_readsIn_iff (impl : DeviceImpl) (s : DeviceState p) (mem : ℤ → UInt8)
    (hptr : req.procPtr = 0) :
    Peek.ReadsIn (InBounds req.size) (Device.dispatch impl req s) mem ↔
      (0 ≤ req.fromAddress → mem 0 = 2 → mem 1 = 3 → 1 < req.size → 5 ≤ req.size) := by
  unfold Device.dispatch
  by_cases hempty : req.size = 0
  · rw [if_pos hempty]
    exact iff_of_true (Peek.readsIn_pure _) fun _ _ _ _ => by omega
  rw [if_neg hempty, Peek.readsIn_bind, Peek.readsIn_read, Peek.value_read, hptr, Nat.cast_zero,
    and_iff_right (show InBounds req.size 0 from ⟨le_rfl, by omega⟩)]
  by_cases hboot : 0 ≤ req.fromAddress ∧ mem 0 = 2
  · obtain ⟨hsender, hns⟩ := hboot
    rw [if_pos (by rw [hns]; exact ⟨hsender, by decide⟩), dispatchDescriptorChain_eq,
      dispatchFunctionChain_readsIn_iff s mem (by omega), hptr, Nat.cast_zero, hns]
    have hchain := bootloader_readsIn_iff impl s { req with procPtr := 0 + 1 } mem rfl
      (by dsimp only; omega)
    constructor
    · intro h _ _
      exact hchain.mp (h (by omega) _ rfl)
    · intro h _ func hfunc
      obtain rfl := Option.some.inj (Option.some.inj hfunc)
      exact hchain.mpr (h hsender rfl)
  · refine iff_of_true ?_ fun hsender hns => absurd ⟨hsender, hns⟩ hboot
    split
    · rename_i hroot
      have hindex : (mem 0).toNat ≠ 2 := fun h => hboot ⟨hroot.1, UInt8.toNat_inj.mp h⟩
      rw [dispatchDescriptorChain_eq, dispatchFunctionChain_readsIn_iff s mem (by omega), hptr,
        Nat.cast_zero]
      intro _ func hfunc
      exact safe_namespaces hindex hfunc _ s mem (by dsimp only; omega)
    · exact Peek.readsIn_pure _

end Uartbus.Analysis
