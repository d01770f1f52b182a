import Uartbus.Analysis.FlashProgramming
import Uartbus.Analysis.UploadPrograms
import Uartbus.Model.LossyLink

/-!
# Calls over a link that loses answers

What a device answers to each request of the uploader (`Answers`), and what comes of a call: a
call that may be repeated gets its answer when not all of its attempts lose it
(`callLoop_repeats`), another one has a single attempt (`callLoop_once`).  `transactionLoop_until`
is the rule of `transaction` for a device that does not change any more.
-/

set_option autoImplicit false

namespace Uartbus.Analysis

open Lib Model

variable {bytes params : Bytes} {errno index : UInt8} {attempts retry : ℕ}

/-! ## The answers of a device -/

section Device

variable {p : Platform} {d : Flash p} {link : LossyLink}

/-- The first answer to a request of 2:4 has the bytes, and leaves the device in the state
`d'`. -/
def Answers (link : LossyLink) (d : Flash p) (index : UInt8) (params : Bytes) (d' : Flash p)
    (bytes : Bytes) : Prop :=
  ∃ more, d.dispatch ⟨p.busAddress, link.fromAddress, 2 :: 4 :: index :: params⟩ =
    (d', flashAnswer p link.fromAddress index bytes :: more)

/-- A request gets to the handler of its function. -/
theorem dispatch_eq_handler {handler : Handler (Flash p)} (hfrom : 0 ≤ link.fromAddress)
    (hlt : (2 :: 4 :: index :: params).length < 256)
    (hhandler : Flash.bootloaderFlashFunctions[index.toNat]? = some (some handler)) :
    d.dispatch ⟨p.busAddress, link.fromAddress, 2 :: 4 :: index :: params⟩ =
      handler ⟨p.busAddress, link.fromAddress, 2 :: 4 :: index :: params, 3, hlt⟩ d := by
  unfold Flash.dispatch
  rw [dif_pos ⟨.inr rfl, hfrom, rfl, hlt⟩]
  simp [Flash.rpcBootloaderFlash, dispatchFunctionChain, hhandler]

theorem ilReply_eq_flashAnswer (hlt : (2 :: 4 :: index :: params).length < 256) :
    ilReply p ⟨p.busAddress, link.fromAddress, 2 :: 4 :: index :: params, 3, hlt⟩ bytes =
      flashAnswer p link.fromAddress index bytes :=
  rfl

variable (hfrom : 0 ≤ link.fromAddress)

include hfrom

theorem answers_stage : Answers link d 0 [] d [0, d.flashStage] := by
  refine ⟨[], (dispatch_eq_handler hfrom (by decide) rfl).trans ?_⟩
  rfl

theorem answers_next :
    Answers link d 2 [] d [highByte d.flashCrntAddress, lowByte d.flashCrntAddress] := by
  refine ⟨[], (dispatch_eq_handler hfrom (by decide) rfl).trans ?_⟩
  rfl

theorem answers_start (halloc : p.allocates = true) (hstage : d.flashStage = 0) :
    Answers link d 1 [] (startedFlash d) [0] := by
  refine ⟨[], (dispatch_eq_handler hfrom (by decide) rfl).trans ?_⟩
  simp [Flash.blfStartFlash, halloc, hstage, startedFlash, ilReply_eq_flashAnswer]

/-- A device without storage for the program. -/
theorem answers_start_fails (halloc : p.allocates = false) (hstage : d.flashStage = 0) :
    Answers link d 1 [] d [ENOMEM] := by
  refine ⟨[], (dispatch_eq_handler hfrom (by decide) rfl).trans ?_⟩
  simp [Flash.blfStartFlash, halloc, hstage, ilReply_eq_flashAnswer]

/-- The second start of a device complains first. -/
theorem answers_start_again (halloc : p.allocates = true) :
    Answers link (startedFlash d) 1 [] (startedFlash d) [EALREADY] := by
  refine ⟨[flashAnswer p link.fromAddress 1 [0]],
    (dispatch_eq_handler hfrom (by decide) rfl).trans ?_⟩
  simp [Flash.blfStartFlash, halloc, startedFlash, ilReply_eq_flashAnswer]

section Push

variable {addr : UInt16} {piece : Bytes} (hstage : d.flashStage ≠ 0)
  (hcrnt : ¬ d.flashCrntAddress < 0x1f00) (hpiece : piece ≠ []) (hsize : piece.length ≤ 250)

include hstage hcrnt hpiece hsize

theorem answers_push (haddr : addr = d.flashCrntAddress) :
    Answers link d 3 (highByte addr :: lowByte addr :: piece) (d.fillFlash piece)
      [0, highByte (d.fillFlash piece).flashCrntAddress,
        lowByte (d.fillFlash piece).flashCrntAddress] := by
  have hpos := List.length_pos_iff.mpr hpiece
  refine ⟨[], (dispatch_eq_handler hfrom (by simp; omega) rfl).trans ?_⟩
  simp only [Flash.blfPushCode, List.drop_succ_cons, List.drop_zero, hstage, if_false,
    List.length_cons, hcrnt, haddr, List.getD_cons_zero, List.getD_cons_succ, ne_eq,
    not_true_eq_false, or_self, ilReply_eq_flashAnswer]
  rw [if_neg (by omega)]

/-- A push at another address is refused. -/
theorem answers_push_elsewhere (haddr : addr ≠ d.flashCrntAddress) :
    Answers link d 3 (highByte addr :: lowByte addr :: piece) d [ ENXIO] := by
  have hpos := List.length_pos_iff.mpr hpiece
  have hbytes : highByte addr ≠ highByte d.flashCrntAddress ∨
      lowByte addr ≠ lowByte d.flashCrntAddress := by
    by_contra hsame
    simp only [not_or, ne_eq, Decidable.not_not] at hsame
    exact haddr (eq_of_bytes hsame.1 hsame.2)
  refine ⟨[], (dispatch_eq_handler hfrom (by simp; omega) rfl).trans ?_⟩
  simp only [Flash.blfPushCode, List.drop_succ_cons, List.drop_zero, hstage, if_false,
    List.length_cons, hcrnt, List.getD_cons_zero, List.getD_cons_succ, hbytes, if_true,
    ilReply_eq_flashAnswer]
  rw [if_neg (by omega)]

end Push

/-- The state after a commit. -/
theorem answers_commit (hstage : d.flashStage ≠ 0) (hcrnt : ¬ d.flashCrntAddress < 0x1f00) :
    Answers link d 4 [] { d with pages := commitPages d, flashStage := 0 } [0] := by
  refine ⟨[], (dispatch_eq_handler hfrom (by decide) rfl).trans ?_⟩
  simp only [Flash.commitFlash, hstage, if_false, hcrnt, ilReply_eq_flashAnswer]
  rfl

/-- There is nothing to commit a second time. -/
theorem answers_commit_again (hstage : d.flashStage = 0) : Answers link d 4 [] d [EBADFD] := by
  refine ⟨[], (dispatch_eq_handler hfrom (by decide) rfl).trans ?_⟩
  simp [Flash.commitFlash, hstage, ilReply_eq_flashAnswer]

end Device

/-! ## A request -/

section Request

variable {p : Platform} {link : LossyLink} {dev : UartBusDevice} {s : Session p}
  {index : UInt8} {params bytes : Bytes} {d' : Flash p}

/-- The answer to the next request of the function is lost. -/
def losesNext (link : LossyLink) (index : UInt8) (s : Session p) : Bool :=
  link.lost [2, 4, index] (s.asked.count [2, 4, index])

/-- The session after a request of the function. -/
def sessionAfter (s : Session p) (index : UInt8) (d' : Flash p) : Session p :=
  ⟨d', s.asked ++ [[2, 4, index]]⟩

theorem count_after (s : Session p) (index : UInt8) (d' : Flash p) :
    (sessionAfter s index d').asked.count [2, 4, index] = s.asked.count [2, 4, index] + 1 := by
  simp [sessionAfter]

/-- An answer of the device is accepted unless it is lost. -/
theorem respond_eq (haddress : dev.address = p.busAddress)
    (h : Answers link s.device index params d' bytes) :
    Session.respond link dev ⟨[2, 4, index], 2 :: 4 :: index :: params, true⟩ s =
      (if losesNext link index s then .timedOut else .response (0 :: 2 :: 4 :: index :: bytes),
        sessionAfter s index d') := by
  obtain ⟨more, hdispatch⟩ := h
  unfold Session.respond
  rw [haddress, hdispatch]
  simp [TransactionState.tryAcceptResponse, flashAnswer, losesNext, sessionAfter]
  rfl

end Request

/-! ## A call -/

section Call

variable {p : Platform} {link : LossyLink} {dev : UartBusDevice} {s : Session p}
  {index : UInt8} {params bytes : Bytes} {d' : Flash p} {function : UbFunction}
  {result : Except RpcError (Option RpcValue)}

/-- Only requests of the function have been made. -/
def OnlyAsks (index : UInt8) (s s' : Session p) : Prop :=
  ∀ path ≠ [2, 4, index], s'.asked.count path = s.asked.count path

theorem onlyAsks_after (s : Session p) (index : UInt8) (d' : Flash p) :
    OnlyAsks index s (sessionAfter s index d') := by
  intro path hpath
  simp [sessionAfter, Ne.symm hpath]

theorem OnlyAsks.trans {s₁ s₂ s₃ : Session p} (h : OnlyAsks index s₁ s₂)
    (h' : OnlyAsks index s₂ s₃) : OnlyAsks index s₁ s₃ :=
  fun path hpath => (h' path hpath).trans (h path hpath)

/-- One of the next answers of the function is not lost. -/
def SomeArrives (link : LossyLink) (index : UInt8) (s : Session p) (attempts : ℕ) : Prop :=
  ∃ j < attempts, link.lost [2, 4, index] (s.asked.count [2, 4, index] + j) = false

theorem not_someArrives_zero : ¬ SomeArrives link index s 0 := by
  rintro ⟨j, hj, -⟩
  exact absurd hj (Nat.not_lt_zero j)

/-- When the next answer is lost, one of those behind it arrives. -/
theorem SomeArrives.next (h : SomeArrives link index s (attempts + 1))
    (hlost : losesNext link index s = true) (d' : Flash p) :
    SomeArrives link index (sessionAfter s index d') attempts := by
  obtain ⟨j, hj, harrives⟩ := h
  cases j with
  | zero =>
    unfold losesNext at hlost
    rw [Nat.add_zero, hlost] at harrives
    cases harrives
  | succ j =>
    refine ⟨j, Nat.lt_of_succ_lt_succ hj, ?_⟩
    rw [count_after, Nat.add_right_comm]
    exact harrives

variable (haddress : dev.address = p.busAddress)

include haddress

/-- A call with one attempt. -/
theorem callLoop_once (honce : function.retransmittable = false)
    (hanswer : Answers link s.device index params d' bytes)
    (hresult : extractOrThrowResult function bytes = some result) (attempts : ℕ)
    (last : Option String) :
    (dev.callLoop function ⟨[2, 4, index], 2 :: 4 :: index :: params, true⟩ (attempts + 1)
      last).Ends (Session.respond link dev) (fun r s' => s' = sessionAfter s index d' ∧
        r = if losesNext link index s then .error (.transaction dev.noResponse) else result) s := by
  simp only [UartBusDevice.callLoop, Program.Ends, respond_eq haddress hanswer]
  cases losesNext link index s with
  | true =>
    simp only [if_true, honce, Bool.false_eq_true, if_false]
    exact ⟨rfl, rfl⟩
  | false =>
    simp only [Bool.false_eq_true, if_false, List.length_cons, List.length_nil,
      List.drop_succ_cons, List.drop_zero, hresult]
    exact ⟨rfl, rfl⟩

/-- A call that is repeated, of a function that does not change the device. -/
theorem callLoop_repeats (hrepeat : function.retransmittable = true) {d : Flash p}
    (hanswer : Answers link d index params d bytes)
    (hresult : extractOrThrowResult function bytes = some result) (hs : s.device = d)
    (harrives : SomeArrives link index s attempts) (last : Option String) :
    (dev.callLoop function ⟨[2, 4, index], 2 :: 4 :: index :: params, true⟩ attempts last).Ends
      (Session.respond link dev)
      (fun r s' => r = result ∧ s'.device = d ∧ OnlyAsks index s s') s := by
  induction attempts generalizing s last with
  | zero => exact absurd harrives not_someArrives_zero
  | succ attempts ih =>
    have hnext : Answers link s.device index params d bytes := by
      rw [hs]
      exact hanswer
    simp only [UartBusDevice.callLoop, Program.Ends, respond_eq haddress hnext]
    cases hlost : losesNext link index s with
    | true =>
      simp only [if_true, hrepeat]
      apply (ih rfl (harrives.next hlost d) (some dev.noResponse)).mono
      rintro r s' ⟨hr, hdevice, hasks⟩
      exact ⟨hr, hdevice, (onlyAsks_after s index d).trans hasks⟩
    | false =>
      simp only [Bool.false_eq_true, if_false, List.length_cons, List.length_nil,
        List.drop_succ_cons, List.drop_zero, hresult]
      exact ⟨rfl, rfl, onlyAsks_after s index d⟩

end Call

/-! ## The functions of the device -/

section Functions

variable {p : Platform} {link : LossyLink} {dev : UartBusDevice} {s : Session p}
  (haddress : dev.address = p.busAddress) (hfrom : 0 ≤ link.fromAddress)

/-- Fewer than `retry_count` answers in a row are lost. -/
def Fair (link : LossyLink) (retry : ℕ) : Prop :=
  ∀ path k, ∃ j < retry, link.lost path (k + j) = false

theorem Fair.someArrives (h : Fair link retry) (index : UInt8) (s : Session p) :
    SomeArrives link index s retry :=
  h [2, 4, index] _

theorem Fair.retry_pos (h : Fair link retry) : 0 < retry := by
  obtain ⟨j, hj, -⟩ := h [] 0
  exact Nat.zero_lt_of_lt hj

theorem Fair.retryCount_eq (h : Fair link dev.retryCount) :
    ∃ attempts, dev.retryCount = attempts + 1 :=
  Nat.exists_eq_add_one.mpr h.retry_pos

theorem extract_pushed (next : UInt16) :
    extractOrThrowResult ⟨3, .value .u16, true, false⟩ [0, highByte next, lowByte next] =
      some ((Except.ok next).map fun v => some (.u16 v)) := by
  have hread : readType .u16 ⟨[0, highByte next, lowByte next], 1⟩ = .value (.u16 next) ⟨_, 3⟩ :=
    readType_u16 rfl rfl
  simp [extractOrThrowResult, PacketReader.readUbyte, hread, Except.map]

theorem extract_refused (herr : errno ≠ 0) :
    extractOrThrowResult ⟨3, .value .u16, true, false⟩ [errno] =
      some ((Except.error (.posix errno) : Except RpcError UInt16).map fun v => some (.u16 v)) := by
  simp [extractOrThrowResult, PacketReader.readUbyte, herr, Except.map]

variable (hfair : Fair link dev.retryCount)

include haddress hfair

/-- A start or a commit has one attempt; the device is in its new state also when the answer is
lost. -/
theorem callUnit_ends {d' : Flash p} (hanswer : Answers link s.device index [] d' [errno]) :
    (dev.callUnit UartBusDevice.nsFlash ⟨index, .void, true, false⟩ []).Ends
      (Session.respond link dev) (fun r s' => s' = sessionAfter s index d' ∧
        r = if losesNext link index s then .error (.transaction dev.noResponse)
          else if errno = 0 then .ok () else .error (.posix errno)) s := by
  obtain ⟨attempts, hattempts⟩ := hfair.retryCount_eq
  have hresult : extractOrThrowResult ⟨index, .void, true, false⟩ [errno] =
      some (if errno = 0 then .ok none else .error (.posix errno)) := by
    by_cases herr : errno = 0 <;> simp [extractOrThrowResult, PacketReader.readUbyte, herr]
  unfold UartBusDevice.callUnit
  rw [call_eq appendElements_nil (by simp), hattempts]
  apply Program.Ends.map
  apply (callLoop_once haddress rfl hanswer hresult attempts none).mono
  rintro r s' ⟨rfl, rfl⟩
  refine ⟨rfl, ?_⟩
  split
  · rfl
  · split <;> rfl

/-- A push has one attempt as well. -/
theorem flashPushCode_ends {addr : UInt16} {piece : Bytes} {d' : Flash p}
    {result : Except RpcError UInt16}
    (hanswer : Answers link s.device 3 (highByte addr :: lowByte addr :: piece) d' bytes)
    (hresult : extractOrThrowResult ⟨3, .value .u16, true, false⟩ bytes =
      some (result.map fun v => some (.u16 v))) :
    (dev.flashPushCode addr piece).Ends (Session.respond link dev)
      (fun r s' => s' = sessionAfter s 3 d' ∧
        r = if losesNext link 3 s then .error (.transaction dev.noResponse) else result) s := by
  obtain ⟨attempts, hattempts⟩ := hfair.retryCount_eq
  unfold UartBusDevice.flashPushCode UartBusDevice.callValue
  rw [call_eq (appendElements_push addr piece) (by simp), hattempts]
  apply Program.Ends.map
  apply Program.Ends.map
  apply (callLoop_once haddress rfl hanswer hresult attempts none).mono
  rintro r s' ⟨rfl, rfl⟩
  refine ⟨rfl, ?_⟩
  cases losesNext link 3 s with
  | true => rfl
  | false => cases result <;> rfl

include hfrom

/-- The stage of the device is told. -/
theorem flashGetStage_ends :
    dev.flashGetStage.Ends (Session.respond link dev)
      (fun r s' => r = .ok s.device.flashStage.toInt8 ∧ s'.device = s.device ∧
        OnlyAsks 0 s s') s := by
  have hresult : extractOrThrowResult ⟨0, .value .s8, true, true⟩ [0, s.device.flashStage] =
      some (.ok (some (.s8 s.device.flashStage.toInt8))) := rfl
  unfold UartBusDevice.flashGetStage UartBusDevice.callValue
  apply Program.Ends.map
  apply Program.Ends.map
  apply (callLoop_repeats haddress rfl (answers_stage hfrom) hresult rfl
    (hfair.someArrives 0 s) none).mono
  rintro r s' ⟨rfl, hs'⟩
  exact ⟨rfl, hs'⟩

/-- The address of the device is told. -/
theorem flashGetNextAddress_ends :
    dev.flashGetNextAddress.Ends (Session.respond link dev)
      (fun r s' => r = .ok s.device.flashCrntAddress ∧ s'.device = s.device ∧
        OnlyAsks 2 s s') s := by
  have hread : readType .u16
      ⟨[highByte s.device.flashCrntAddress, lowByte s.device.flashCrntAddress], 0⟩ =
        .value (.u16 s.device.flashCrntAddress) ⟨_, 2⟩ := readType_u16 rfl rfl
  have hresult : extractOrThrowResult ⟨2, .value .u16, false, true⟩
      [highByte s.device.flashCrntAddress, lowByte s.device.flashCrntAddress] =
        some (.ok (some (.u16 s.device.flashCrntAddress))) := by
    simp [extractOrThrowResult, hread]
  unfold UartBusDevice.flashGetNextAddress UartBusDevice.callValue
  apply Program.Ends.map
  apply Program.Ends.map
  apply (callLoop_repeats haddress rfl (answers_next hfrom) hresult rfl
    (hfair.someArrives 2 s) none).mono
  rintro r s' ⟨rfl, hs'⟩
  exact ⟨rfl, hs'⟩

end Functions

/-! ## Transactions -/

section Transactions

variable {p : Platform} {link : LossyLink} {dev : UartBusDevice} {s : Session p} {R τ : Type}
  {step : τ → ClientProgram (Except RpcError R × τ)} {index : UInt8} {d : Flash p} {v : τ}
  {text : String} {result : Except RpcError R × τ}

/-- The rule of `transaction` for a closure that makes one request of a function which leaves the
device and the variables as they are: the first answer that arrives decides. -/
theorem transactionLoop_until (hfinal : ∀ t, result.1 ≠ .error (.transaction t))
    (hstep : ∀ s : Session p, s.device = d → (step v).Ends (Session.respond link dev)
      (fun r s' => s' = sessionAfter s index d ∧
        r = if losesNext link index s then (.error (.transaction text), v) else result) s)
    (hs : s.device = d) (harrives : SomeArrives link index s attempts) (last : RpcError) :
    (transactionLoop step attempts last v).Ends (Session.respond link dev)
      (fun r s' => r = result ∧ s'.device = d ∧ OnlyAsks index s s') s := by
  induction attempts generalizing s last with
  | zero => exact absurd harrives not_someArrives_zero
  | succ attempts ih =>
    unfold transactionLoop
    apply (hstep s hs).bind
    rintro r s' ⟨rfl, rfl⟩
    cases hlost : losesNext link index s with
    | true =>
      apply (ih rfl (harrives.next hlost d) _).mono
      rintro r s' ⟨hr, hdevice, hasks⟩
      exact ⟨hr, hdevice, (onlyAsks_after s index d).trans hasks⟩
    | false =>
      match result, hfinal with
      | (.error (.transaction t), w), hfinal => exact absurd rfl (hfinal t)
      | (.error (.posix _), w), _ | (.error (.other _), w), _ | (.ok _, w), _ =>
        exact ⟨rfl, rfl, onlyAsks_after s index d⟩

end Transactions

end Uartbus.Analysis
