import Uartbus.Analysis.HandlerReads

/-!
# The answers of the functions of a device

The functions of 2:4 are those of the flash model with their reads (`dispatch_flash`).  A request
that is too short is answered with an error, except by `read_code` and by `user_led`
(`answers_short`).
-/

set_option autoImplicit false

namespace Uartbus.Analysis

open Lib Model

variable {σ : Type} {p : Platform} {chain : List (Option (Device.Handler σ))} {rest : Bytes}
  {functions : List (Option (Device.Handler (DeviceState p)))} {ns : UInt8}

/-! ## The functions of 2:4 -/

section Agreement

/-- With the payload in the memory, the two functions do the same. -/
def Agrees (handler : Device.Handler σ) (func : Handler σ) : Prop :=
  ∀ (req : RpcRequest) (s : σ) (stack : ℤ → UInt8), req.procPtr ≤ req.payload.length →
    (handler req.head s).value (arrayIn req.payload stack) =
      .returned (func req s).1 (func req s).2

variable {req : RpcRequest} {stack : ℤ → UInt8}

theorem rpcResponse_value (hptr : req.procPtr ≤ req.payload.length) (bytes : Bytes) :
    (Device.rpcResponse p req.head (pure bytes)).value (arrayIn req.payload stack) =
      ilReply p req bytes := by
  have hpath := block_arrayIn req.payload stack (show 0 + req.procPtr ≤ _ by omega)
  rw [List.drop_zero, Nat.cast_zero] at hpath
  simp only [Device.rpcResponse, RpcRequest.head, Peek.value_bind, Peek.value_readBlock,
    Peek.value_pure, hpath, ilReply]

theorem ilReply_value (hptr : req.procPtr ≤ req.payload.length) (bytes : Bytes) (s : σ) :
    (Device.ilReply p req.head bytes s).value (arrayIn req.payload stack) =
      .returned s [ilReply p req bytes] := by
  simp only [Device.ilReply, Peek.value_bind, Peek.value_pure, rpcResponse_value hptr]

theorem agrees_ilReply (bytes : σ → Bytes) :
    Agrees (fun req (s : σ) => Device.ilReply p req (bytes s) s)
      fun req s => (s, [ilReply p req (bytes s)]) :=
  fun _ s _ hptr => ilReply_value hptr (bytes s) s

theorem agrees_startFlash : Agrees (Device.blfStartFlash (p := p)) Flash.blfStartFlash := by
  intro req s stack hptr
  have hearly : (Device.answerStarted req.head s).value (arrayIn req.payload stack) =
      if s.flashStage = 1 then [ilReply p req [EALREADY]] else [] := by
    unfold Device.answerStarted
    simp only [Peek.value_ite, Peek.value_bind, Peek.value_pure, rpcResponse_value hptr]
  unfold Device.blfStartFlash Flash.blfStartFlash
  simp only [Peek.value_bind, Peek.value_ite, Peek.value_pure, rpcResponse_value hptr, hearly]
  split <;> rfl

/-- The comparison of the address bytes, in the stack and in the list. -/
theorem otherAddress_value (s : Flash p) (hsize : ¬ (req.payload.drop req.procPtr).length < 3) :
    (Device.otherAddress req.head s).value (arrayIn req.payload stack) =
      decide ((req.payload.drop req.procPtr).getD 0 0 ≠ highByte s.flashCrntAddress ∨
        (req.payload.drop req.procPtr).getD 1 0 ≠ lowByte s.flashCrntAddress) := by
  have hlen : req.procPtr + 3 ≤ req.payload.length := by
    rw [List.length_drop] at hsize
    omega
  have hcell : ∀ k, k < 3 → arrayIn req.payload stack (req.procPtr + k : ℕ) =
      (req.payload.drop req.procPtr).getD k 0 := by
    intro k hk
    rw [arrayIn_natCast (by omega), List.getD_eq_getElem _ _ (by rw [List.length_drop]; omega),
      List.getElem_drop]
  have hfirst := hcell 0 (by omega)
  have hsecond := hcell 1 (by omega)
  push_cast at hfirst hsecond
  rw [add_zero] at hfirst
  unfold Device.otherAddress
  simp only [Peek.value_bind, Peek.value_read, Peek.value_ite, Peek.value_pure, RpcRequest.head,
    hfirst, hsecond]
  split
  · rename_i hne
    exact (decide_eq_true (.inl hne)).symm
  · rename_i heq
    simp only [heq, false_or]

/-- Both models of `blf_push_code`. -/
theorem agrees_pushCode : Agrees (Device.blfPushCode (p := p)) Flash.blfPushCode := by
  intro req s stack hptr
  unfold Device.blfPushCode Flash.blfPushCode
  by_cases hstage : s.flashStage = 0
  · simp only [if_pos hstage, ilReply_value hptr]
  by_cases hsize : (req.payload.drop req.procPtr).length < 3
  · have hhead : req.head.size - req.head.procPtr < 3 := by rwa [List.length_drop] at hsize
    simp only [if_neg hstage, if_pos hsize, if_pos hhead, ilReply_value hptr]
  have hhead : ¬ req.head.size - req.head.procPtr < 3 := by rwa [List.length_drop] at hsize
  by_cases haddress : s.flashCrntAddress < 0x1f00
  · simp only [if_neg hstage, if_neg hsize, if_neg hhead, if_pos haddress, ilReply_value hptr]
  have hbuf : Peek.block (arrayIn req.payload stack) (req.head.procPtr + 2)
      (req.head.size - req.head.procPtr - 2) = (req.payload.drop req.procPtr).drop 2 := by
    have hblock := block_arrayIn req.payload stack (show
      req.procPtr + 2 + (req.payload.length - req.procPtr - 2) ≤ req.payload.length by
        rw [List.length_drop] at hsize
        omega)
    rw [List.drop_drop]
    refine hblock.trans (List.take_of_length_le ?_)
    rw [List.length_drop]
    omega
  simp only [if_neg hstage, if_neg hsize, if_neg hhead, if_neg haddress, Peek.value_bind,
    otherAddress_value s hsize, Peek.value_ite, ilReply_value hptr, Peek.value_readBlock, hbuf,
    decide_eq_true_eq]
  split <;> rfl

theorem agrees_commitFlash : Agrees (Device.commitFlash (p := p)) Flash.commitFlash := by
  intro req s stack hptr
  unfold Device.commitFlash Flash.commitFlash
  simp only [Peek.value_ite, ilReply_value hptr]
  split
  · rfl
  · split <;> rfl

/-- A chain of functions that agree. -/
theorem agrees_chain {funcs : List (Option (Handler σ))}
    (h : ∀ i : ℕ, Option.Rel (Option.Rel Agrees) chain[i]? funcs[i]?) :
    Agrees (Device.dispatchFunctionChain p chain) (dispatchFunctionChain p funcs) := by
  intro req s stack hptr
  unfold Device.dispatchFunctionChain dispatchFunctionChain
  by_cases hlt : req.procPtr < req.payload.length
  · have hcell : arrayIn req.payload stack req.head.procPtr = req.payload[req.procPtr] :=
      arrayIn_natCast hlt stack
    rw [if_pos (show req.head.procPtr < req.head.size from hlt), List.getElem?_eq_getElem hlt,
      Peek.value_bind, Peek.value_read, hcell]
    dsimp only
    have hrel := h req.payload[req.procPtr].toNat
    generalize chain[req.payload[req.procPtr].toNat]? = entry at hrel ⊢
    generalize funcs[req.payload[req.procPtr].toNat]? = entry' at hrel ⊢
    cases hrel with
    | none => exact ilReply_value hptr _ s
    | some hentry =>
      cases hentry with
      | none => exact ilReply_value hptr _ s
      | some hfunc => exact hfunc { req with procPtr := req.procPtr + 1 } s stack hlt
  · rw [if_neg (show ¬ req.head.procPtr < req.head.size from hlt), ilReply_value hptr,
      List.getElem?_eq_none (by omega)]

theorem agrees_flash : Agrees
    (Device.dispatchFunctionChain p (Device.bootloaderFlashFunctions (p := p)))
    Flash.rpcBootloaderFlash := by
  refine agrees_chain fun i => ?_
  rcases i with _ | _ | _ | _ | _ | i
  · exact .some (.some (agrees_ilReply _))
  · exact .some (.some agrees_startFlash)
  · exact .some (.some (agrees_ilReply _))
  · exact .some (.some agrees_pushCode)
  · exact .some (.some agrees_commitFlash)
  · exact .none

end Agreement

/-! ## What is answered -/

section Answers

variable {req : RpcRequest} {stack : ℤ → UInt8}

/-- A request of the namespaces of the bootloader goes through their table. -/
theorem dispatch_value (impl : DeviceImpl) (s : DeviceState p) (hpayload : req.payload = ns :: rest)
    (hptr : req.procPtr = 0) (hsender : 0 ≤ req.fromAddress) (hns : 0 < ns ∧ ns < 32) :
    (Device.dispatch impl req.head s).value (arrayIn req.payload stack) =
      (Device.dispatchFunctionChain p (namespaces impl) req.head s).value
        (arrayIn req.payload stack) := by
  have hcell : arrayIn req.payload stack req.head.procPtr = ns := by
    rw [show req.head.procPtr = 0 from hptr, hpayload]
    exact arrayIn_natCast (by simp) stack
  unfold Device.dispatch
  rw [if_neg (show req.head.size ≠ 0 by simp [RpcRequest.head, hpayload]), Peek.value_bind,
    Peek.value_read, hcell, if_pos ⟨hsender, hns⟩, dispatchDescriptorChain_eq]
  rfl

/-- A chain calls the function that the next byte names. -/
theorem chain_value {func : Device.Handler σ} (s : σ) (hlt : req.procPtr < req.payload.length)
    (hfunc : chain[req.payload[req.procPtr].toNat]? = some (some func)) :
    (Device.dispatchFunctionChain p chain req.head s).value (arrayIn req.payload stack) =
      (func ({ req with procPtr := req.procPtr + 1 } : RpcRequest).head s).value
        (arrayIn req.payload stack) := by
  have hcell : arrayIn req.payload stack req.head.procPtr = req.payload[req.procPtr] :=
    arrayIn_natCast hlt stack
  unfold Device.dispatchFunctionChain
  rw [if_pos (show req.head.procPtr < req.head.size from hlt), Peek.value_bind, Peek.value_read,
    hcell, hfunc]
  rfl

/-- A chain at the end of the payload. -/
theorem chain_value_end (s : σ) (hend : req.procPtr = req.payload.length) :
    (Device.dispatchFunctionChain p chain req.head s).value (arrayIn req.payload stack) =
      .returned s [ilReply p req [EBADF]] := by
  unfold Device.dispatchFunctionChain
  rw [if_neg (show ¬ req.head.procPtr < req.head.size by simp [RpcRequest.head, hend]),
    ilReply_value hend.le]

/-- The first byte of the path chooses the table of functions. -/
theorem dispatch_value_namespace (impl : DeviceImpl) (s : DeviceState p)
    (hpayload : req.payload = ns :: rest) (hptr : req.procPtr = 0) (hsender : 0 ≤ req.fromAddress)
    (hns : 0 < ns ∧ ns < 32)
    (hfunctions : (Device.rpcNsFunctions impl)[ns.toNat]? = some (some functions)) :
    (Device.dispatch impl req.head s).value (arrayIn req.payload stack) =
      (Device.dispatchFunctionChain p functions ({ req with procPtr := 1 } : RpcRequest).head
        s).value (arrayIn req.payload stack) := by
  have hfirst : req.procPtr < req.payload.length := by
    rw [hptr, hpayload]
    exact Nat.succ_pos _
  have htable : (namespaces impl)[req.payload[req.procPtr].toNat]? =
      some (some (Device.dispatchFunctionChain p functions)) := by
    simp only [hptr, hpayload, List.getElem_cons_zero, namespaces, List.getElem?_map, hfunctions,
      Option.map_some]
  have hstep : ({ req with procPtr := req.procPtr + 1 } : RpcRequest) =
      { req with procPtr := 1 } := by rw [hptr]
  rw [dispatch_value impl s hpayload hptr hsender hns, chain_value s hfirst htable, hstep]

/-- The second byte chooses the function. -/
theorem dispatch_value_function {f : UInt8} (impl : DeviceImpl) (s : DeviceState p)
    (hpayload : req.payload = ns :: f :: rest) (hptr : req.procPtr = 0)
    (hsender : 0 ≤ req.fromAddress) (hns : 0 < ns ∧ ns < 32)
    (hfunctions : (Device.rpcNsFunctions impl)[ns.toNat]? = some (some functions))
    {func : Device.Handler (DeviceState p)} (hfunc : functions[f.toNat]? = some (some func)) :
    (Device.dispatch impl req.head s).value (arrayIn req.payload stack) =
      (func ({ req with procPtr := 2 } : RpcRequest).head s).value
        (arrayIn req.payload stack) := by
  set atFunction : RpcRequest := { req with procPtr := 1 } with hreq
  have hsecond : atFunction.procPtr < atFunction.payload.length := by simp [hreq, hpayload]
  have hcalled : functions[atFunction.payload[atFunction.procPtr].toNat]? = some (some func) := by
    simpa [hreq, hpayload] using hfunc
  rw [dispatch_value_namespace impl s hpayload hptr hsender hns hfunctions]
  exact chain_value s hsecond hcalled

/-- **The functions of 2:4.**  A request for them does to the device what the flash model says, and
is answered by the same packets. -/
theorem dispatch_flash (impl : DeviceImpl) (s : DeviceState p)
    (hpayload : req.payload = 2 :: 4 :: rest) (hptr : req.procPtr = 0)
    (htarget : req.toAddress < 1 ∨ req.toAddress = p.busAddress) (hsender : 0 ≤ req.fromAddress) :
    (Device.dispatch impl req.head s).value (arrayIn req.payload stack) =
      let next := s.flash.dispatch ⟨req.toAddress, req.fromAddress, req.payload⟩
      .returned { s with flash := next.1 } next.2 := by
  have hnext : s.flash.dispatch ⟨req.toAddress, req.fromAddress, req.payload⟩ =
      Flash.rpcBootloaderFlash { req with procPtr := 2 } s.flash := by
    unfold Flash.dispatch
    rw [dif_pos ⟨htarget, hsender, by simp [hpayload], req.size_lt⟩]
  have hflash := agrees_flash (p := p) { req with procPtr := 2 } s.flash stack (by simp [hpayload])
  rw [dispatch_value_function impl s hpayload hptr hsender (by decide) rfl rfl, hnext]
  simp only [Device.rpcBootloaderFlash, Peek.value_bind, Peek.value_pure]
  exact congrArg (Ending.map fun flash => { s with flash := flash }) hflash

/-- How many bytes a request of the namespaces 1 and 2 has at least: its path, and the parameters
of the function. -/
def leastSize (payload : Bytes) : ℕ :=
  if payload.take 2 = [1, 2] ∨ payload.take 2 = [2, 0] ∨ payload.take 2 = [2, 1] then 3
  else if payload.take 2 = [2, 2] then 4
  else if payload.take 2 = [2, 3] then 5
  else if payload.take 3 = [2, 4, 3] then 6
  else if payload.take 2 = [2, 4] then 3
  else 2

/-- A request of the namespaces 1 and 2 whose path or parameters are incomplete. -/
def TooShort (payload : Bytes) : Prop :=
  (payload.head? = some 1 ∨ payload.head? = some 2) ∧ payload.length < leastSize payload

/-- There is one answer, with an error code behind a part of the path, and nothing else happens. -/
def AnsweredByError (req : RpcRequest) (s : DeviceState p) (ending : Ending (DeviceState p)) :
    Prop :=
  ∃ err : UInt8, err ≠ 0 ∧ ∃ used ≤ req.payload.length,
    ending = .returned s [ilReply p { req with procPtr := used } [err]]

/-- A `read_code` request without an address and a length. -/
def ShortReadCode (payload : Bytes) : Prop :=
  payload.take 2 = [2, 3] ∧ payload.length < 5

/-- The requests that are too short, one by one. -/
inductive ShortRequest : Bytes → Prop where
  | path {ns : UInt8} (hns : ns = 1 ∨ ns = 2) : ShortRequest [ns]
  | userLed : ShortRequest [1, 2]
  | powerFunction : ShortRequest [2, 0]
  | getVar : ShortRequest [2, 1]
  | setVar {params : Bytes} (hlen : params.length < 2) : ShortRequest (2 :: 2 :: params)
  | readCode {params : Bytes} (hlen : params.length < 3) : ShortRequest (2 :: 3 :: params)
  | flash : ShortRequest [2, 4]
  | pushCode {params : Bytes} (hlen : params.length < 3) :
      ShortRequest (2 :: 4 :: 3 :: params)

/-- Every request that is too short is one of these. -/
theorem TooShort.shortRequest {payload : Bytes} (h : TooShort payload) :
    ShortRequest payload := by
  obtain ⟨hns, hsize⟩ := h
  rcases payload with _ | ⟨ns, _ | ⟨f, rest⟩⟩
  · simp at hns
  · exact .path (by simpa using hns)
  · have hnil : (ns :: f :: rest).length < 3 → rest = [] := by
      intro hlen
      simp only [List.length_cons] at hlen
      exact List.length_eq_zero_iff.mp (by omega)
    have htwo : ∀ a b : UInt8, (ns :: f :: rest).take 2 = [a, b] → ns = a ∧ f = b := by
      intro a b htake
      simpa using htake
    unfold leastSize at hsize
    split at hsize
    · rename_i hpath
      obtain rfl := hnil hsize
      rcases hpath with hpath | hpath | hpath <;> obtain ⟨rfl, rfl⟩ := htwo _ _ hpath
      · exact .userLed
      · exact .powerFunction
      · exact .getVar
    split at hsize
    · rename_i hpath
      obtain ⟨rfl, rfl⟩ := htwo _ _ hpath
      simp only [List.length_cons] at hsize
      exact .setVar (by omega)
    split at hsize
    · rename_i hpath
      obtain ⟨rfl, rfl⟩ := htwo _ _ hpath
      simp only [List.length_cons] at hsize
      exact .readCode (by omega)
    split at hsize
    · rename_i hpath
      rcases rest with _ | ⟨g, params⟩
      · simp at hpath
      · simp only [List.take_succ_cons, List.take_zero, List.cons.injEq, and_true] at hpath
        obtain ⟨rfl, rfl, rfl⟩ := hpath
        simp only [List.length_cons] at hsize
        exact .pushCode (by omega)
    split at hsize
    · rename_i hpath
      obtain rfl := hnil hsize
      obtain ⟨rfl, rfl⟩ := htwo _ _ hpath
      exact .flash
    · simp only [List.length_cons] at hsize
      omega

theorem AnsweredByError.of_reply {used : ℕ} (hused : used ≤ req.payload.length) {err : UInt8}
    (herr : err ≠ 0) (s : DeviceState p) :
    AnsweredByError req s ((Device.ilReply p ({ req with procPtr := used } : RpcRequest).head
      [err] s).value (arrayIn req.payload stack)) :=
  ⟨err, herr, used, hused, ilReply_value hused [err] s⟩

/-- The requests for 2:4 that are too short, in the flash model. -/
theorem flash_short (s : Flash p) (htarget : req.toAddress < 1 ∨ req.toAddress = p.busAddress)
    (hsender : 0 ≤ req.fromAddress)
    (h : req.payload = [2, 4] ∨ ∃ params, req.payload = 2 :: 4 :: 3 :: params ∧ params.length < 3) :
    ∃ err : UInt8, err ≠ 0 ∧ ∃ used ≤ req.payload.length,
      s.dispatch ⟨req.toAddress, req.fromAddress, req.payload⟩ =
        (s, [ilReply p { req with procPtr := used } [err]]) := by
  have hpath : req.payload.take 2 = [2, 4] := by
    rcases h with h | ⟨params, h, -⟩ <;> simp [h]
  unfold Flash.dispatch
  rw [dif_pos ⟨htarget, hsender, hpath, req.size_lt⟩]
  rcases h with h | ⟨params, h, hlen⟩
  · refine ⟨EBADF, by decide, 2, by simp [h], ?_⟩
    simp [Flash.rpcBootloaderFlash, dispatchFunctionChain, h]
  · have hcall : Flash.rpcBootloaderFlash { req with procPtr := 2 } s =
        Flash.blfPushCode { req with procPtr := 3 } s := by
      simp [Flash.rpcBootloaderFlash, dispatchFunctionChain, h, Flash.bootloaderFlashFunctions]
    by_cases hstage : s.flashStage = 0
    · refine ⟨ENOTCONN, by decide, 3, by simp [h], hcall.trans ?_⟩
      simp [Flash.blfPushCode, hstage]
    · refine ⟨EBADMSG, by decide, 3, by simp [h], hcall.trans ?_⟩
      simp [Flash.blfPushCode, hstage, h, hlen]

/-- **Short requests.**  A request that is too short is answered with an error, if it is not one for
`read_code` or for `user_led`. -/
theorem answers_short (impl : DeviceImpl) (s : DeviceState p) (hptr : req.procPtr = 0)
    (htarget : req.toAddress < 1 ∨ req.toAddress = p.busAddress) (hsender : 0 ≤ req.fromAddress)
    (hshort : TooShort req.payload) (hled : req.payload ≠ [1, 2])
    (hread : ¬ ShortReadCode req.payload) :
    AnsweredByError req s
      ((Device.dispatch impl req.head s).value (arrayIn req.payload stack)) := by
  -- the functions of namespace 2, on a request that ends too early for them
  have hanswer : ∀ {f rest} {func : Device.Handler (DeviceState p)},
      req.payload = 2 :: f :: rest →
      (Device.rpcFunctionsBootloader impl)[f.toNat]? = some (some func) →
      func ({ req with procPtr := 2 } : RpcRequest).head s =
        Device.ilReply p ({ req with procPtr := 2 } : RpcRequest).head [EINVAL] s →
      AnsweredByError req s
        ((Device.dispatch impl req.head s).value (arrayIn req.payload stack)) := by
    intro f rest func hpayload hfunc hcall
    rw [dispatch_value_function impl s hpayload hptr hsender (by decide) rfl hfunc, hcall]
    exact AnsweredByError.of_reply (by simp [hpayload]) (by decide) s
  have hflash : ∀ {rest}, req.payload = 2 :: 4 :: rest →
      (req.payload = [2, 4] ∨ ∃ params, req.payload = 2 :: 4 :: 3 :: params ∧ params.length < 3) →
      AnsweredByError req s
        ((Device.dispatch impl req.head s).value (arrayIn req.payload stack)) := by
    intro rest hpayload h
    obtain ⟨err, herr, used, hused, hnext⟩ := flash_short s.flash htarget hsender h
    rw [dispatch_flash impl s hpayload hptr htarget hsender, hnext]
    exact ⟨err, herr, used, hused, rfl⟩
  have hcases := hshort.shortRequest
  generalize h : req.payload = payload at hcases
  rw [← h]
  cases hcases with
  | path hns =>
    rcases hns with rfl | rfl <;>
      rw [dispatch_value_namespace impl s h hptr hsender (by decide) rfl] <;>
      exact ⟨EBADF, by decide, 1, by simp [h], chain_value_end s (by simp [h])⟩
  | userLed => exact absurd h hled
  | powerFunction =>
    refine hanswer h rfl ?_
    simp [Device.rpcBootloaderPowerFunction, RpcRequest.head, h]
  | getVar =>
    refine hanswer h rfl ?_
    simp [Device.rpcBootloaderGetVar, RpcRequest.head, h]
  | setVar hlen =>
    refine hanswer h rfl ?_
    simp [Device.rpcBootloaderSetVar, RpcRequest.head, h, hlen]
  | readCode hlen => exact absurd ⟨by simp [h], by simp [h]; omega⟩ hread
  | flash => exact hflash h (.inl h)
  | pushCode hlen => exact hflash h (.inr ⟨_, h, hlen⟩)

end Answers

end Uartbus.Analysis
