import Uartbus.Model.Upload
import Uartbus.Analysis.RpcRoundTrip

/-!
# What the uploader asks and concludes

Nothing in an answer says which request it answers, so an answer may be old.  What it tells all
the same is kept as `Knowledge`: addresses that the device has expected a push at, and whether
the code is in the program memory.  Knowledge only grows.

For each statement of `push_code` the results here say which requests it makes and what is
known when it ends, from answers that tell nothing wrong.
-/

set_option autoImplicit false

namespace Uartbus.Analysis

open Lib Model

variable {rest : Bytes} {addr start v : UInt16}

/-! ## Two bytes of an address -/

section Bytes

theorem toNat_highByte (v : UInt16) : (highByte v).toNat = v.toNat / 256 := by
  have hlt := v.toNat_lt
  have hshift : (v >>> 8).toNat = v.toNat / 256 := by
    rw [UInt16.toNat_shiftRight, Nat.shiftRight_eq_div_pow]
    rfl
  unfold highByte
  rw [UInt16.toNat_toUInt8, UInt16.toNat_and, hshift]
  show (v.toNat / 256 &&& (2 ^ 8 - 1)) % 2 ^ 8 = _
  rw [Nat.and_two_pow_sub_one_eq_mod]
  omega

theorem toNat_lowByte (v : UInt16) : (lowByte v).toNat = v.toNat % 256 := by
  unfold lowByte
  rw [UInt16.toNat_toUInt8, UInt16.toNat_and]
  show (v.toNat &&& (2 ^ 8 - 1)) % 2 ^ 8 = _
  rw [Nat.and_two_pow_sub_one_eq_mod]
  omega

/-- An address is determined by its two bytes. -/
theorem eq_of_bytes {w : UInt16} (hhigh : highByte v = highByte w) (hlow : lowByte v = lowByte w) :
    v = w := by
  have h₁ := congrArg UInt8.toNat hhigh
  have h₂ := congrArg UInt8.toNat hlow
  rw [toNat_highByte, toNat_highByte] at h₁
  rw [toNat_lowByte, toNat_lowByte] at h₂
  apply UInt16.toNat_inj.mp
  omega

theorem toBeBytes_eq (v : UInt16) : toBeBytes v = [highByte v, lowByte v] := by
  have hlt := v.toNat_lt
  have hhigh : (v >>> 8).toUInt8 = highByte v := by
    apply UInt8.toNat_inj.mp
    rw [toNat_highByte, UInt16.toNat_toUInt8, UInt16.toNat_shiftRight,
      Nat.shiftRight_eq_div_pow]
    show v.toNat / 256 % 2 ^ 8 = _
    omega
  have hlow : v.toUInt8 = lowByte v := by
    apply UInt8.toNat_inj.mp
    rw [toNat_lowByte, UInt16.toNat_toUInt8]
  unfold toBeBytes
  rw [hhigh, hlow]

theorem fromBeBytes_eq (v : UInt16) : fromBeBytes (highByte v) (lowByte v) = v := by
  have hbytes := toBeBytes_eq v
  unfold toBeBytes at hbytes
  rw [List.cons.injEq, List.cons.injEq] at hbytes
  rw [← hbytes.1, ← hbytes.2.1, fromBeBytes_toBeBytes]

end Bytes

/-! ## What answers tell -/

/-- What is known about the device. -/
structure Knowledge where
  /-- The device has expected a push at the address. -/
  addresses : UInt16 → Prop
  /-- The code is in the program memory. -/
  complete : Prop

namespace Knowledge

instance preorder : Preorder Knowledge where
  le k k' := (∀ v, k.addresses v → k'.addresses v) ∧ (k.complete → k'.complete)
  le_refl _ := ⟨fun _ h => h, fun h => h⟩
  le_trans _ _ _ h h' := ⟨fun v hv => h'.1 v (h.1 v hv), fun hc => h'.2 (h.2 hc)⟩

def nothing : Knowledge := ⟨fun _ => False, False⟩

theorem nothing_le (k : Knowledge) : nothing ≤ k := ⟨fun _ h => h.elim, fun h => h.elim⟩

end Knowledge

/-- An answer tells nothing that is not known: the addresses of the functions 2:4:2 and 2:4:3,
and the success of 2:4:4. -/
structure AnswerOk (k : Knowledge) (payload : Bytes) : Prop where
  next : ∀ rest, payload = 0 :: 2 :: 4 :: 2 :: rest →
    ∃ v, rest = [highByte v, lowByte v] ∧ k.addresses v
  pushed : ∀ rest, payload = 0 :: 2 :: 4 :: 3 :: 0 :: rest →
    ∃ v, rest = [highByte v, lowByte v] ∧ k.addresses v
  committed : ∀ rest, payload = 0 :: 2 :: 4 :: 4 :: 0 :: rest → k.complete

theorem AnswerOk.mono {k k' : Knowledge} {payload : Bytes} (h : AnswerOk k payload)
    (hk : k ≤ k') : AnswerOk k' payload := by
  refine ⟨fun rest hr => ?_, fun rest hr => ?_, fun rest hr => hk.2 (h.committed rest hr)⟩
  · obtain ⟨v, hv, hknown⟩ := h.next rest hr
    exact ⟨v, hv, hk.1 v hknown⟩
  · obtain ⟨v, hv, hknown⟩ := h.pushed rest hr
    exact ⟨v, hv, hk.1 v hknown⟩

/-- What a transaction can come to. -/
def Told (k : Knowledge) (r : Request) : Outcome → Prop
  | .response payload => (0 :: r.path) <+: payload ∧ AnswerOk k payload
  | .sent => r.awaited = false
  | .timedOut | .sendFailed _ => True

theorem told_mono (k k' : Knowledge) (hk : k ≤ k') (r : Request) (w : Outcome)
    (h : Told k r w) : Told k' r w := by
  cases w with
  | response payload => exact ⟨h.1, h.2.mono hk⟩
  | timedOut | sendFailed | sent => exact h

/-! ## Calls -/

section Calls

variable {R : Request → Prop} {k : Knowledge} {dev : UartBusDevice} {function : UbFunction}

/-- A call makes the one request, and its result is an error or comes from an answer. -/
theorem callLoop_safe {Q : Knowledge → Except RpcError (Option RpcValue) → Prop}
    {request : Request} (hR : R request) (hawait : request.awaited = true)
    (herror : ∀ k' e, Q k' (.error e))
    (hanswer : ∀ k' rest result, AnswerOk k' (0 :: (request.path ++ rest)) →
      extractOrThrowResult function rest = some result → Q k' result)
    (attempts : ℕ) (last : Option String) :
    (dev.callLoop function request attempts last).SafeFrom R Told Q k := by
  induction attempts generalizing last k with
  | zero => exact Program.safeFrom_done fun k' _ => herror k' _
  | succ attempts ih =>
    apply Program.safeFrom_ask hR
    intro k' _ w hw
    cases w with
    | sendFailed text => exact Program.safeFrom_done fun k'' _ => herror k'' _
    | sent =>
      rw [Told, hawait] at hw
      cases hw
    | timedOut =>
      simp only
      split
      · exact ih (some dev.noResponse)
      · exact Program.safeFrom_done fun k'' _ => herror k'' _
    | response payload =>
      obtain ⟨⟨rest, hrest⟩, hok⟩ := hw
      have hdrop : payload.drop (request.path.length + 1) = rest := by
        rw [← hrest]
        simp
      simp only [hdrop]
      split
      next result hresult =>
        apply Program.safeFrom_done
        intro k'' hk''
        refine hanswer k'' rest result ?_ hresult
        have hpayload : payload = 0 :: (request.path ++ rest) := hrest.symm
        rw [← hpayload]
        exact hok.mono hk''
      next => exact fun _ _ => trivial

variable {index : UInt8} {ret : UbRet} {posix retransmittable : Bool} {params : List RpcValue}
  {bytes : Bytes}

/-- The parameters of a push. -/
theorem appendElements_push (addr : UInt16) (piece : Bytes) :
    appendElements [.u16 addr, .bytes piece] = .ok (highByte addr :: lowByte addr :: piece) := by
  simp [appendElements, appendValue, toBeBytes_eq]
  rfl

/-- A request of 2:4 with its attempts. -/
theorem call_eq (hparams : appendElements params = .ok bytes) (hret : ret ≠ .noReturn) :
    dev.call UartBusDevice.nsFlash ⟨index, ret, posix, retransmittable⟩ params =
      dev.callLoop ⟨index, ret, posix, retransmittable⟩
        ⟨[2, 4, index], 2 :: 4 :: index :: bytes, true⟩ dev.retryCount none := by
  unfold UartBusDevice.call
  simp only [hparams]
  cases ret with
  | noReturn => exact absurd rfl hret
  | void | value ty => rfl

theorem call_safe {Q : Knowledge → Except RpcError (Option RpcValue) → Prop}
    (hparams : appendElements params = .ok bytes) (hret : ret ≠ .noReturn)
    (hR : R ⟨[2, 4, index], 2 :: 4 :: index :: bytes, true⟩)
    (herror : ∀ k' e, Q k' (.error e))
    (hanswer : ∀ k' rest result, AnswerOk k' (0 :: 2 :: 4 :: index :: rest) →
      extractOrThrowResult ⟨index, ret, posix, retransmittable⟩ rest = some result →
        Q k' result) :
    (dev.call UartBusDevice.nsFlash ⟨index, ret, posix, retransmittable⟩ params).SafeFrom R
      Told Q k := by
  rw [call_eq hparams hret]
  exact callLoop_safe hR rfl herror hanswer dev.retryCount none

/-- An address that is read from its two bytes. -/
theorem readType_u16 {data : Bytes} {ep : ℕ} (hhigh : data[ep]? = some (highByte v))
    (hlow : data[ep + 1]? = some (lowByte v)) :
    readType .u16 ⟨data, ep⟩ = .value (.u16 v) ⟨data, ep + 2⟩ := by
  simp [readType, PacketReader.readU16Be, ReadOutcome.ofOption, hhigh, hlow, fromBeBytes_eq]

/-- The answer of 2:4:2 is an address that is known. -/
theorem AnswerOk.next_address (h : AnswerOk k (0 :: 2 :: 4 :: 2 :: rest))
    (hx : extractOrThrowResult ⟨2, .value .u16, false, retransmittable⟩ rest =
      some (.ok (some (.u16 v)))) : k.addresses v := by
  obtain ⟨w, rfl, hknown⟩ := h.next rest rfl
  have hread : readType .u16 ⟨[highByte w, lowByte w], 0⟩ = .value (.u16 w) ⟨_, 2⟩ :=
    readType_u16 rfl rfl
  simp only [extractOrThrowResult, Bool.false_eq_true, if_false, hread, Option.some.injEq,
    Except.ok.injEq, RpcValue.u16.injEq] at hx
  rw [← hx]
  exact hknown

/-- A good answer of 2:4:3 is an address that is known. -/
theorem AnswerOk.pushed_address (h : AnswerOk k (0 :: 2 :: 4 :: 3 :: rest))
    (hx : extractOrThrowResult ⟨3, .value .u16, true, retransmittable⟩ rest =
      some (.ok (some (.u16 v)))) : k.addresses v := by
  cases rest with
  | nil => simp [extractOrThrowResult, PacketReader.readUbyte] at hx
  | cons errno tail =>
    by_cases herr : errno = 0
    · subst herr
      obtain ⟨w, rfl, hknown⟩ := h.pushed tail rfl
      have hread : readType .u16 ⟨[0, highByte w, lowByte w], 1⟩ = .value (.u16 w) ⟨_, 3⟩ :=
        readType_u16 rfl rfl
      simp [extractOrThrowResult, PacketReader.readUbyte, hread] at hx
      rw [← hx]
      exact hknown
    · simp [extractOrThrowResult, PacketReader.readUbyte, herr] at hx

/-- A good answer of 2:4:4 says that the code is in place. -/
theorem AnswerOk.commit_complete {v : Option RpcValue} (h : AnswerOk k (0 :: 2 :: 4 :: 4 :: rest))
    (hx : extractOrThrowResult ⟨4, .void, true, retransmittable⟩ rest = some (.ok v)) :
    k.complete := by
  cases rest with
  | nil => simp [extractOrThrowResult, PacketReader.readUbyte] at hx
  | cons errno tail =>
    by_cases herr : errno = 0
    · subst herr
      exact h.committed tail rfl
    · simp [extractOrThrowResult, PacketReader.readUbyte, herr] at hx

end Calls

/-! ## The functions of the device -/

section Functions

variable {R : Request → Prop} {k : Knowledge} {dev : UartBusDevice}

variable {function : UbFunction} {params : List RpcValue}

/-- A call for its value. -/
theorem callValue_safe {P : Knowledge → RpcValue → Prop}
    (hmono : ∀ k k' v, k ≤ k' → P k v → P k' v)
    (h : (dev.call UartBusDevice.nsFlash function params).SafeFrom R Told
      (fun k r => ∀ v, r = .ok (some v) → P k v) k) :
    (dev.callValue UartBusDevice.nsFlash function params).SafeFrom R Told
      (fun k r => ∀ v, r = .ok v → P k v) k := by
  apply h.bind
  intro k' _ result hresult
  apply Program.safeFrom_done
  intro k'' hk v hv
  apply hmono k' k'' v hk
  apply hresult v
  match result with
  | .ok (some w) =>
    simp only [Except.ok.injEq] at hv
    rw [hv]

/-- An address as the result of a call is known. -/
def AddressKnown (k : Knowledge) (result : Except RpcError UInt16) : Prop :=
  ∀ v, result = .ok v → k.addresses v

theorem addressValue_safe
    (h : (dev.call UartBusDevice.nsFlash function params).SafeFrom R Told
      (fun k r => ∀ value, r = .ok (some value) → ∀ v, value = .u16 v → k.addresses v) k) :
    ((dev.callValue UartBusDevice.nsFlash function params).bind fun result =>
      .done (UartBusDevice.addressValue result)).SafeFrom R Told AddressKnown k := by
  apply (callValue_safe (fun k k' value hk hv v heq => hk.1 v (hv v heq)) h).bind
  intro k' _ result hresult
  apply Program.safeFrom_done
  intro k'' hk v hv
  apply hk.1 v
  match result with
  | .ok (.u16 w) =>
    simp only [UartBusDevice.addressValue, Except.ok.injEq] at hv
    exact hresult (.u16 w) rfl v (by rw [hv])

theorem flashGetNextAddress_safe (hR : R ⟨[2, 4, 2], [2, 4, 2], true⟩) :
    dev.flashGetNextAddress.SafeFrom R Told AddressKnown k := by
  apply addressValue_safe
  apply call_safe appendElements_nil (by simp) hR
  · intro k' e value hr
    cases hr
  · intro k' rest result hok hx value hr v hv
    rw [hr, hv] at hx
    exact hok.next_address hx

theorem flashPushCode_safe {piece : Bytes}
    (hR : R ⟨[2, 4, 3], 2 :: 4 :: 3 :: highByte addr :: lowByte addr :: piece, true⟩) :
    (dev.flashPushCode addr piece).SafeFrom R Told AddressKnown k := by
  apply addressValue_safe
  apply call_safe (appendElements_push addr piece) (by simp) hR
  · intro k' e value hr
    cases hr
  · intro k' rest result hok hx value hr v hv
    rw [hr, hv] at hx
    exact hok.pushed_address hx

/-- A call for its effect. -/
theorem callUnit_safe {Q : Knowledge → Except RpcError Unit → Prop}
    (h : (dev.call UartBusDevice.nsFlash function params).SafeFrom R Told
      (fun k r => ∀ k', k ≤ k' → Q k' (r.map fun _ => ())) k) :
    (dev.callUnit UartBusDevice.nsFlash function params).SafeFrom R Told Q k := by
  apply h.bind
  intro k' _ result hresult
  exact Program.safeFrom_done hresult

theorem flashStart_safe (hR : R ⟨[2, 4, 1], [2, 4, 1], true⟩) :
    dev.flashStart.SafeFrom R Told (fun _ _ => True) k := by
  apply callUnit_safe
  exact call_safe appendElements_nil (by simp) hR (fun _ _ _ _ => trivial)
    (fun _ _ _ _ _ _ _ => trivial)

theorem flashCommit_safe (hR : R ⟨[2, 4, 4], [2, 4, 4], true⟩) :
    dev.flashCommit.SafeFrom R Told (fun k r => r = .ok () → k.complete) k := by
  apply callUnit_safe
  apply call_safe appendElements_nil (by simp) hR
  · intro k' e k'' _ hr
    cases hr
  · intro k' rest result hok hx k'' hk hr
    cases result with
    | error e => cases hr
    | ok v => exact hk.2 (hok.commit_complete hx)

theorem flashGetStage_safe (hR : R ⟨[2, 4, 0], [2, 4, 0], true⟩) :
    dev.flashGetStage.SafeFrom R Told (fun _ _ => True) k := by
  have hcall : (dev.call UartBusDevice.nsFlash ⟨0, .value .s8, true, true⟩ []).SafeFrom R Told
      (fun _ r => ∀ v, r = .ok (some v) → True) k :=
    call_safe appendElements_nil (by simp) hR (fun _ _ _ _ => trivial)
      (fun _ _ _ _ _ _ _ => trivial)
  exact (callValue_safe (fun _ _ _ _ _ => trivial) hcall).bind
    fun _ _ _ _ => Program.safeFrom_done fun _ _ => trivial

end Functions

/-! ## The statements of `push_code` -/

section Statements

variable {R : Request → Prop} {k : Knowledge} {dev : UartBusDevice} {code : CodeSegment}

/-- What holds after a closure of `transaction`: `I` of the variables after an error, `P` after
a result. -/
def Settled {α σ : Type} (I : Knowledge → σ → Prop) (P : Knowledge → α → σ → Prop)
    (k : Knowledge) : Except RpcError α × σ → Prop
  | (.error _, s) => I k s
  | (.ok a, s) => P k a s

/-- The rule of `transaction`: what its closure keeps in a failed attempt and has at the end,
it has at the end. -/
theorem transaction_safe {α σ : Type} {step : σ → ClientProgram (Except RpcError α × σ)}
    {I : Knowledge → σ → Prop} {P : Knowledge → α → σ → Prop}
    (hI : ∀ k k' s, k ≤ k' → I k s → I k' s) (hP : ∀ k k' a s, k ≤ k' → P k a s → P k' a s)
    (hstep : ∀ k s, I k s → (step s).SafeFrom R Told (Settled I P) k) (retry : ℕ) (s : σ)
    (h : I k s) : (transaction step retry s).SafeFrom R Told (Settled I P) k := by
  unfold transaction
  generalize RpcError.transaction "No attempt was made" = last
  induction retry generalizing last s k with
  | zero => exact Program.safeFrom_done fun k' hk => hI k k' s hk h
  | succ attempts ih =>
    apply (hstep k s h).bind
    intro k' _ result hresult
    match result with
    | (.error (.transaction text), s') => exact ih s' hresult _
    | (.error (.posix _), s') | (.error (.other _), s') =>
      exact Program.safeFrom_done fun k'' hk => hI k' k'' s' hk hresult
    | (.ok a, s') => exact Program.safeFrom_done fun k'' hk => hP k' k'' a s' hk hresult

/-- The push of a piece of the code. -/
def IsPiece (code : CodeSegment) (payload : Bytes) : Prop :=
  ∃ addr : UInt16, code.startAddress ≤ addr.toNat ∧ addr.toNat < code.codeEnd ∧
    payload = 2 :: 4 :: 3 :: highByte addr :: lowByte addr ::
      code.getCodePiece (addr.toNat - code.startAddress) blockSize

/-- The address at the head of the loop is 0 or known. -/
def AddrInv (k : Knowledge) (addr : UInt16) : Prop := addr = 0 ∨ k.addresses addr

/-- What a round of the loop ends with; `true` ends the loop. -/
def RoundEnds (code : CodeSegment) (k : Knowledge) (finished : Bool) (addr : UInt16) : Prop :=
  AddrInv k addr ∧ (finished = true → k.addresses addr ∧ code.codeEnd ≤ addr.toNat)

theorem addrInv_mono (k k' : Knowledge) (addr : UInt16) (hk : k ≤ k') (h : AddrInv k addr) :
    AddrInv k' addr :=
  h.imp_right (hk.1 addr)

theorem roundEnds_mono (k k' : Knowledge) (finished : Bool) (addr : UInt16) (hk : k ≤ k')
    (h : RoundEnds code k finished addr) : RoundEnds code k' finished addr :=
  ⟨addrInv_mono k k' addr hk h.1, fun hf => ⟨hk.1 addr (h.2 hf).1, (h.2 hf).2⟩⟩

theorem settled_mono {k k' : Knowledge} {result : Except RpcError Bool × UInt16} (hk : k ≤ k')
    (h : Settled AddrInv (RoundEnds code) k result) :
    Settled AddrInv (RoundEnds code) k' result := by
  match result with
  | (.error _, addr) => exact addrInv_mono k k' addr hk h
  | (.ok finished, addr) => exact roundEnds_mono k k' finished addr hk h

variable (hnext : R ⟨[2, 4, 2], [2, 4, 2], true⟩)
  (hpiece : ∀ payload, IsPiece code payload → R ⟨[2, 4, 3], payload, true⟩)

include hpiece in
/-- A push asks for nothing else and returns what it is told. -/
theorem pushPiece_safe (h : k.addresses addr) :
    (pushPiece dev code addr).SafeFrom R Told (Settled AddrInv (RoundEnds code)) k := by
  have hdone : ∀ result, Settled AddrInv (RoundEnds code) k result →
      (Program.done result : ClientProgram _).SafeFrom R Told (Settled AddrInv (RoundEnds code))
        k := by
    intro result hresult
    exact Program.safeFrom_done fun k' hk => settled_mono hk hresult
  unfold pushPiece
  split
  next hend => exact hdone _ ⟨.inr h, fun _ => ⟨h, hend⟩⟩
  next hend =>
    split
    · exact hdone _ (.inr h)
    · split
      · exact hdone _ ⟨.inr h, (by simp)⟩
      next hstart =>
        have hask := hpiece _ ⟨addr, Nat.not_lt.mp hstart, Nat.not_le.mp hend, rfl⟩
        apply (flashPushCode_safe hask).bind
        intro k' hk' result hresult
        apply Program.safeFrom_done
        intro k'' hk
        refine settled_mono hk ?_
        match result with
        | .ok next => exact ⟨.inr (hresult next rfl), (by simp)⟩
        | .error (.posix errno) =>
          simp only
          split
          · exact ⟨.inl rfl, (by simp)⟩
          · exact .inr (hk'.1 addr h)
        | .error (.transaction _) | .error (.other _) => exact .inr (hk'.1 addr h)

include hnext hpiece in
theorem pushStep_safe (h : AddrInv k addr) :
    (pushStep dev code addr).SafeFrom R Told (Settled AddrInv (RoundEnds code)) k := by
  unfold pushStep
  split
  next =>
    apply (flashGetNextAddress_safe hnext).bind
    intro k' hk' result hresult
    cases result with
    | error e =>
      exact Program.safeFrom_done fun k'' hk => addrInv_mono k k'' addr (hk'.trans hk) h
    | ok next => exact pushPiece_safe hpiece (hresult next rfl)
  next hne => exact pushPiece_safe hpiece (h.resolve_left hne)

/-- Where `push_code` goes from its first two statements. -/
inductive Started : UploadPoint → Prop where
  | starting : Started .starting
  | locating : Started .locating
  | failed (e : RpcError) : Started (.returned (.error e))

/-- Where it goes when it has asked for the first address. -/
inductive Located (code : CodeSegment) (k : Knowledge) : UploadPoint → Prop where
  | pushing (start : UInt16) (h : k.addresses start) (hstart : start.toNat = code.startAddress) :
      Located code k (.pushing start 0)
  | failed (e : RpcError) : Located code k (.returned (.error e))

/-- Where it goes after a round of the loop. -/
inductive Pushed (code : CodeSegment) (k : Knowledge) : UploadPoint → Prop where
  | pushing (start addr : UInt16) (h : AddrInv k addr) : Pushed code k (.pushing start addr)
  | committing (start addr : UInt16) (h : k.addresses addr) (hend : code.codeEnd ≤ addr.toNat) :
      Pushed code k (.committing start)
  | failed (e : RpcError) : Pushed code k (.returned (.error e))

/-- How it ends. -/
inductive Committed (k : Knowledge) : UploadPoint → Prop where
  | returned (start : UInt16) (h : k.complete) : Committed k (.returned (.ok start))
  | failed (e : RpcError) : Committed k (.returned (.error e))

theorem staging_safe (hR : R ⟨[2, 4, 0], [2, 4, 0], true⟩) :
    (pushCodeAt dev code .staging).SafeFrom R Told (fun _ => Started) k := by
  apply (flashGetStage_safe hR).bind
  intro k' _ result _
  apply Program.safeFrom_done
  intro k'' _
  cases result with
  | error e => exact .failed e
  | ok stage =>
    simp only
    split
    · exact .locating
    · exact .starting

theorem starting_safe (hR : R ⟨[2, 4, 1], [2, 4, 1], true⟩) :
    (pushCodeAt dev code .starting).SafeFrom R Told (fun _ => Started) k := by
  have htransaction : (transaction (fun _ : Unit => dev.flashStart.bind fun r => .done (r, ()))
      dev.retryCount ()).SafeFrom R Told
        (Settled (fun _ _ => True) fun _ _ _ => True) k := by
    refine transaction_safe (fun _ _ _ _ _ => trivial) (fun _ _ _ _ _ _ => trivial) ?_ _ _
      trivial
    intro k s _
    apply (flashStart_safe hR).bind
    intro k' _ result _
    apply Program.safeFrom_done
    intro k'' _
    cases result <;> trivial
  apply htransaction.bind
  intro k' _ result _
  apply Program.safeFrom_done
  intro k'' _
  match result with
  | (.error e, _) => exact .failed e
  | (.ok _, _) => exact .locating

theorem locating_safe (hR : R ⟨[2, 4, 2], [2, 4, 2], true⟩) :
    (pushCodeAt dev code .locating).SafeFrom R Told (Located code) k := by
  apply (flashGetNextAddress_safe hR).bind
  intro k' _ result hresult
  apply Program.safeFrom_done
  intro k'' hk
  cases result with
  | error e => exact .failed e
  | ok start =>
    simp only
    split
    · exact .failed _
    next hstart =>
      exact .pushing start (hk.1 start (hresult start rfl)) (Decidable.not_not.mp hstart)

include hnext hpiece in
theorem pushing_safe (h : AddrInv k addr) :
    (pushCodeAt dev code (.pushing start addr)).SafeFrom R Told (Pushed code) k := by
  have htransaction : (transaction (pushStep dev code) dev.retryCount addr).SafeFrom R Told
      (Settled AddrInv (RoundEnds code)) k :=
    transaction_safe addrInv_mono roundEnds_mono
      (fun k addr hk => pushStep_safe hnext hpiece hk) _ _ h
  apply htransaction.bind
  intro k' _ result hresult
  apply Program.safeFrom_done
  intro k'' hk
  have hsettled := settled_mono hk hresult
  match result with
  | (.error e, _) => exact .failed e
  | (.ok true, addr) =>
    obtain ⟨hknown, hend⟩ := hsettled.2 rfl
    exact .committing start addr hknown hend
  | (.ok false, addr) => exact .pushing start addr hsettled.1

theorem committing_safe (hR : R ⟨[2, 4, 4], [2, 4, 4], true⟩) :
    (pushCodeAt dev code (.committing start)).SafeFrom R Told Committed k := by
  have htransaction : (transaction (fun _ : Unit => dev.flashCommit.bind fun r => .done (r, ()))
      dev.retryCount ()).SafeFrom R Told
        (Settled (fun _ _ => True) fun k _ _ => k.complete) k := by
    refine transaction_safe (fun _ _ _ _ _ => trivial) (fun _ _ _ _ hk h => hk.2 h) ?_ _ _
      trivial
    intro k s _
    apply (flashCommit_safe hR).bind
    intro k' _ result hresult
    apply Program.safeFrom_done
    intro k'' hk
    cases result with
    | error e => trivial
    | ok u => exact hk.2 (hresult rfl)
  apply htransaction.bind
  intro k' _ result hresult
  apply Program.safeFrom_done
  intro k'' hk
  match result with
  | (.error e, _) => exact .failed e
  | (.ok _, _) => exact .returned start (hk.2 hresult)

end Statements

end Uartbus.Analysis
