import Uartbus.Analysis.LossyCalls
import Uartbus.Analysis.UploadSafety

/-!
# Uploading over a link that loses answers

A push whose answer is lost is repeated and refused, and the uploader asks for the address: it
gets on.  A start or a commit whose answer is lost is repeated and refused too, but here the
refusal ends the upload.  `push_code` returns in any case (`Finishes`, one lemma for each of its
statements), and `lossy_upload_iff` says when it returns the address.  A session over
the link is a run of the system of `Model.Upload` (`reaches_returned`).
-/

set_option autoImplicit false

namespace Uartbus.Analysis

open Lib Model

variable {result : Except RpcError UInt16} {point : UploadPoint} {addr : UInt16} {e : RpcError}
  {errno index : UInt8} {condition : Prop}

section Statements

variable {p : Platform} {link : LossyLink} {dev : UartBusDevice} {code : CodeSegment}

/-- From a statement on, `push_code` returns a result that satisfies `Q`. -/
def Finishes (link : LossyLink) (dev : UartBusDevice) (code : CodeSegment)
    (Q : Except RpcError UInt16 → Prop) (point : UploadPoint) (s : Session p) : Prop :=
  ∃ n, (pushCodeFrom dev code n point).Ends (Session.respond link dev)
    (fun point _ => ∃ result, point = .returned result ∧ Q result) s

variable {Q : Except RpcError UInt16 → Prop} {s : Session p}

theorem finishes_returned (h : Q result) : Finishes link dev code Q (.returned result) s :=
  ⟨0, result, rfl, h⟩

/-- One statement after the other. -/
theorem Finishes.of_statement (h : (pushCodeAt dev code point).Ends (Session.respond link dev)
      (fun next s' => Finishes link dev code Q next s') s) : Finishes link dev code Q point s := by
  obtain ⟨next, s', hexec, n, hnext⟩ := Program.ends_iff_exec.mp h
  refine ⟨n + 1, ?_⟩
  have hstatement : (pushCodeAt dev code point).Ends (Session.respond link dev)
      (fun a t => a = next ∧ t = s') s :=
    Program.ends_iff_exec.mpr ⟨next, s', hexec, rfl, rfl⟩
  apply hstatement.bind
  rintro a t ⟨rfl, rfl⟩
  exact hnext

variable (haddress : dev.address = p.busAddress) (hfair : Fair link dev.retryCount)

include haddress hfair

/-- The closure of a start or a commit. -/
theorem unitStep_ends {d' : Flash p} (hanswer : Answers link s.device index [] d' [errno]) :
    ((dev.callUnit UartBusDevice.nsFlash ⟨index, .void, true, false⟩ []).bind fun r =>
        .done (r, ())).Ends (Session.respond link dev)
      (fun r s' => s' = sessionAfter s index d' ∧
        r = if losesNext link index s then (.error (.transaction dev.noResponse), ())
          else (if errno = 0 then .ok () else .error (.posix errno), ())) s := by
  apply Program.Ends.map
  apply (callUnit_ends haddress hfair hanswer).mono
  rintro r s' ⟨hs', rfl⟩
  refine ⟨hs', ?_⟩
  split <;> rfl

/-- The transaction of a start or a commit.  When the first answer is lost, the device is in its
new state `d'` and answers the next request with the error `again`. -/
theorem unitTransaction_ends {again : UInt8} {d' : Flash p}
    (hanswer : Answers link s.device index [] d' [errno])
    (hagain : Answers link d' index [] d' [again]) (hne : again ≠ 0) :
    (transaction (fun _ : Unit =>
        (dev.callUnit UartBusDevice.nsFlash ⟨index, .void, true, false⟩ []).bind fun r =>
          .done (r, ())) dev.retryCount ()).Ends (Session.respond link dev)
      (fun r s' => s'.device = d' ∧ OnlyAsks index s s' ∧
        r = if losesNext link index s then (.error (.posix again), ())
          else (if errno = 0 then .ok () else .error (.posix errno), ())) s := by
  obtain ⟨attempts, hattempts⟩ := hfair.retryCount_eq
  have harrives := hfair.someArrives index s
  unfold transaction
  rw [hattempts] at harrives ⊢
  -- every request behind a lost answer is refused
  have hstep : ∀ s₁ : Session p, s₁.device = d' →
      ((dev.callUnit UartBusDevice.nsFlash ⟨index, .void, true, false⟩ []).bind fun r =>
          .done (r, ())).Ends (Session.respond link dev)
        (fun r s' => s' = sessionAfter s₁ index d' ∧
          r = if losesNext link index s₁ then (.error (.transaction dev.noResponse), ())
            else (.error (.posix again), ())) s₁ := by
    intro s₁ hs₁
    have hanswer₁ : Answers link s₁.device index [] d' [again] := by
      rw [hs₁]
      exact hagain
    apply (unitStep_ends haddress hfair hanswer₁).mono
    rintro r s' ⟨hs', hr⟩
    rw [if_neg hne] at hr
    exact ⟨hs', hr⟩
  unfold transactionLoop
  apply (unitStep_ends haddress hfair hanswer).bind
  rintro r s' ⟨rfl, rfl⟩
  cases hlost : losesNext link index s with
  | true =>
    have hfinal : ∀ t, (Except.error (.posix again) : Except RpcError Unit) ≠
        .error (.transaction t) := by
      intro t ht
      cases ht
    apply (transactionLoop_until hfinal hstep rfl (harrives.next hlost d') _).mono
    rintro r s' ⟨hr, hdevice, hasks⟩
    exact ⟨hdevice, (onlyAsks_after s index d').trans hasks, hr⟩
  | false =>
    simp only [Bool.false_eq_true, if_false]
    split
    next => exact ⟨rfl, onlyAsks_after s index d', rfl⟩
    next => exact ⟨rfl, onlyAsks_after s index d', rfl⟩

end Statements

/-! ## The loop of the pushes -/

/-- The device is programmed with the code; its address is inside of it or at its end. -/
structure Flashing {p : Platform} (code : CodeSegment) (d : Flash p) : Prop where
  stage : d.flashStage ≠ 0
  start_le : code.startAddress ≤ d.flashCrntAddress.toNat
  le_end : d.flashCrntAddress.toNat ≤ code.codeEnd

/-- The code is in the range that a device can be programmed in. -/
structure InRange (code : CodeSegment) : Prop where
  start_ge : 0x1f00 ≤ code.startAddress
  end_lt : code.codeEnd < 0x10000

theorem flashStage_fillFlash {p : Platform} (d : Flash p) (buf : Bytes) :
    (d.fillFlash buf).flashStage = d.flashStage := by
  unfold Flash.fillFlash
  induction buf generalizing d with
  | nil => rfl
  | cons b buf ih => exact ih (d.fillByte b)

section Pieces

variable {p : Platform} {d : Flash p} {code : CodeSegment}

/-- The piece that is pushed at an address. -/
abbrev pieceAt (code : CodeSegment) (addr : UInt16) : Bytes :=
  code.getCodePiece (addr.toNat - code.startAddress) blockSize

theorem length_pieceAt (hstart : code.startAddress ≤ addr.toNat) (hlt : addr.toNat < code.codeEnd) :
    0 < (pieceAt code addr).length ∧ (pieceAt code addr).length ≤ 32 ∧
      addr.toNat + (pieceAt code addr).length ≤ code.codeEnd := by
  unfold CodeSegment.codeEnd at hlt ⊢
  rw [length_getCodePiece]
  unfold blockSize
  omega

theorem Flashing.not_low (h : Flashing code d) (hcode : InRange code) :
    ¬ d.flashCrntAddress < 0x1f00 := by
  exact not_lt.mpr (hcode.start_ge.trans h.start_le)

/-- An address in the range is not the one that stands for an unknown address. -/
theorem InRange.ne_zero (hcode : InRange code) (hstart : code.startAddress ≤ addr.toNat) :
    addr ≠ 0 := by
  rintro rfl
  have hlow := hcode.start_ge.trans hstart
  simp at hlow

/-- The device gets on with the piece at its address. -/
theorem Flashing.push (h : Flashing code d) (hcode : InRange code)
    (hlt : d.flashCrntAddress.toNat < code.codeEnd) :
    Flashing code (d.fillFlash (pieceAt code d.flashCrntAddress)) ∧
      d.flashCrntAddress.toNat <
        (d.fillFlash (pieceAt code d.flashCrntAddress)).flashCrntAddress.toNat := by
  obtain ⟨hpos, -, hle⟩ := length_pieceAt h.start_le hlt
  have hend := hcode.end_lt
  have hstart := h.start_le
  have haddr := toNat_fillFlash d (pieceAt code d.flashCrntAddress) (by omega)
  refine ⟨⟨?_, ?_, ?_⟩, ?_⟩
  · rw [flashStage_fillFlash]
    exact h.stage
  · omega
  · omega
  · omega

end Pieces

section Pushes

variable {p : Platform} {link : LossyLink} {dev : UartBusDevice} {code : CodeSegment}
  {s : Session p} (haddress : dev.address = p.busAddress) (hfrom : 0 ≤ link.fromAddress)
  (hfair : Fair link dev.retryCount)

include haddress hfrom hfair

/-- The closure pushes at the address of the device, which is known or has to be asked for. -/
theorem pushStep_ends (haddr : addr = 0 ∨ addr = s.device.flashCrntAddress)
    {Q : Except RpcError Bool × UInt16 → Session p → Prop}
    (hpiece : ∀ s₁ : Session p, s₁.device = s.device → OnlyAsks 2 s s₁ →
      (pushPiece dev code s.device.flashCrntAddress).Ends (Session.respond link dev) Q s₁) :
    (pushStep dev code addr).Ends (Session.respond link dev) Q s := by
  unfold pushStep
  by_cases hzero : addr = 0
  · rw [if_pos hzero]
    apply (flashGetNextAddress_ends haddress hfrom hfair).bind
    rintro r s₁ ⟨rfl, hdevice, hasks⟩
    exact hpiece s₁ hdevice hasks
  · rw [if_neg hzero, haddr.resolve_left hzero]
    exact hpiece s rfl fun _ _ => rfl

/-- The closure at the end of the code. -/
theorem pushStep_end (hend : s.device.flashCrntAddress.toNat = code.codeEnd)
    (haddr : addr = 0 ∨ addr = s.device.flashCrntAddress) :
    (pushStep dev code addr).Ends (Session.respond link dev)
      (fun r s' => r = (.ok true, s.device.flashCrntAddress) ∧ s'.device = s.device ∧
        OnlyAsks 2 s s') s := by
  refine pushStep_ends haddress hfrom hfair haddr fun s₁ hdevice hasks => ?_
  unfold pushPiece
  rw [if_pos hend.ge]
  exact ⟨rfl, hdevice, hasks⟩

theorem pushRound_end (hend : s.device.flashCrntAddress.toNat = code.codeEnd)
    (haddr : addr = 0 ∨ addr = s.device.flashCrntAddress) :
    (transaction (pushStep dev code) dev.retryCount addr).Ends (Session.respond link dev)
      (fun r s' => s'.device = s.device ∧ s'.asked.count [2, 4, 4] = s.asked.count [2, 4, 4] ∧
        r = (.ok true, s.device.flashCrntAddress)) s := by
  obtain ⟨attempts, hattempts⟩ := hfair.retryCount_eq
  unfold transaction
  rw [hattempts]
  unfold transactionLoop
  apply (pushStep_end haddress hfrom hfair hend haddr).bind
  rintro r s' ⟨rfl, hdevice, hasks⟩
  exact ⟨hdevice, hasks _ (by decide), rfl⟩

variable (hcode : InRange code)

include hcode

/-- A push at an address that the device has passed. -/
theorem pushPiece_passed (h : Flashing code s.device) (hstart : code.startAddress ≤ addr.toNat)
    (hlt : addr.toNat < s.device.flashCrntAddress.toNat) :
    (pushPiece dev code addr).Ends (Session.respond link dev)
      (fun r s' => s' = sessionAfter s 3 s.device ∧
        r = if losesNext link 3 s then (.error (.transaction dev.noResponse), addr)
          else (.ok false, 0)) s := by
  have hend : addr.toNat < code.codeEnd := hlt.trans_le h.le_end
  obtain ⟨hpos, hle, -⟩ := length_pieceAt hstart hend
  have hne : addr ≠ s.device.flashCrntAddress := by
    rintro rfl
    exact lt_irrefl _ hlt
  unfold pushPiece
  rw [if_neg (not_le.mpr hend), if_neg (hcode.ne_zero hstart), if_neg (not_lt.mpr hstart)]
  have hanswer := answers_push_elsewhere hfrom h.stage (h.not_low hcode)
    (List.length_pos_iff.mp hpos) (hle.trans (by decide)) hne
  apply Program.Ends.map
  apply (flashPushCode_ends haddress hfair hanswer (extract_refused (by decide))).mono
  rintro r s' ⟨hs', rfl⟩
  refine ⟨hs', ?_⟩
  cases losesNext link 3 s <;> rfl

section Taken

variable (h : Flashing code s.device) (hlt : s.device.flashCrntAddress.toNat < code.codeEnd)
  {d' : Flash p} (hd' : s.device.fillFlash (pieceAt code s.device.flashCrntAddress) = d')

include h hlt hd'

/-- A push at the address of the device; the answer may be lost. -/
theorem pushPiece_taken :
    (pushPiece dev code s.device.flashCrntAddress).Ends (Session.respond link dev)
      (fun r s' => s' = sessionAfter s 3 d' ∧
        r = if losesNext link 3 s
          then (.error (.transaction dev.noResponse), s.device.flashCrntAddress)
          else (.ok false, d'.flashCrntAddress)) s := by
  obtain ⟨hpos, hle, -⟩ := length_pieceAt h.start_le hlt
  unfold pushPiece
  rw [if_neg (not_le.mpr hlt), if_neg (hcode.ne_zero h.start_le), if_neg (not_lt.mpr h.start_le)]
  have hanswer := answers_push hfrom h.stage (h.not_low hcode) (List.length_pos_iff.mp hpos)
    (hle.trans (by decide)) rfl
  rw [hd'] at hanswer
  apply Program.Ends.map
  apply (flashPushCode_ends haddress hfair hanswer (extract_pushed d'.flashCrntAddress)).mono
  rintro r s' ⟨hs', rfl⟩
  refine ⟨hs', ?_⟩
  cases losesNext link 3 s <;> rfl

variable (haddr : addr = 0 ∨ addr = s.device.flashCrntAddress)

include haddr

/-- The closure before the end of the code. -/
theorem pushStep_taken :
    (pushStep dev code addr).Ends (Session.respond link dev)
      (fun r s' => ∃ s₁ : Session p, OnlyAsks 2 s s₁ ∧ s' = sessionAfter s₁ 3 d' ∧
        r = if losesNext link 3 s₁
          then (.error (.transaction dev.noResponse), s.device.flashCrntAddress)
          else (.ok false, d'.flashCrntAddress)) s := by
  refine pushStep_ends haddress hfrom hfair haddr fun s₁ hdevice hasks => ?_
  rw [← hdevice] at h hlt hd' ⊢
  apply (pushPiece_taken haddress hfrom hfair hcode h hlt hd').mono
  rintro r s' ⟨hs', hr⟩
  exact ⟨s₁, hasks, hs', hr⟩

/-- One round of the loop gets on, whichever of its answers are lost. -/
theorem pushRound_taken :
    (transaction (pushStep dev code) dev.retryCount addr).Ends (Session.respond link dev)
      (fun r s' => s'.device = d' ∧ s'.asked.count [2, 4, 4] = s.asked.count [2, 4, 4] ∧
        (r = (.ok false, 0) ∨ r = (.ok false, d'.flashCrntAddress))) s := by
  obtain ⟨attempts, hattempts⟩ := hfair.retryCount_eq
  obtain ⟨hflashing, hpassed⟩ := h.push hcode hlt
  rw [hd'] at hflashing hpassed
  unfold transaction
  rw [hattempts]
  unfold transactionLoop
  apply (pushStep_taken haddress hfrom hfair hcode h hlt hd' haddr).bind
  rintro r s' ⟨s₁, hasks, rfl, rfl⟩
  have hcount : (sessionAfter s₁ 3 d').asked.count [2, 4, 4] = s.asked.count [2, 4, 4] :=
    (onlyAsks_after s₁ 3 d' _ (by decide)).trans (hasks _ (by decide))
  cases hlost : losesNext link 3 s₁ with
  | false => exact ⟨rfl, hcount, .inr rfl⟩
  | true =>
    -- the push is repeated at the old address, and the device has passed it
    have hstep : ∀ s₂ : Session p, s₂.device = d' →
        (pushStep dev code s.device.flashCrntAddress).Ends (Session.respond link dev)
          (fun r s' => s' = sessionAfter s₂ 3 d' ∧
            r = if losesNext link 3 s₂
              then (.error (.transaction dev.noResponse), s.device.flashCrntAddress)
              else (.ok false, 0)) s₂ := by
      intro s₂ hs₂
      rw [← hs₂] at hflashing hpassed ⊢
      unfold pushStep
      rw [if_neg (hcode.ne_zero h.start_le)]
      exact pushPiece_passed haddress hfrom hfair hcode hflashing h.start_le hpassed
    have harrives := hfair.someArrives 3 s₁
    rw [hattempts] at harrives
    have hfinal : ∀ t, (Except.ok false : Except RpcError Bool) ≠ .error (.transaction t) := by
      intro t ht
      cases ht
    apply (transactionLoop_until hfinal hstep rfl (harrives.next hlost d') _).mono
    rintro r s' ⟨hr, hdevice, hasks'⟩
    exact ⟨hdevice, (hasks' _ (by decide)).trans hcount, .inl hr⟩

end Taken

end Pushes

/-! ## The statements -/

section Finish

variable {p : Platform} {link : LossyLink} {dev : UartBusDevice} {code : CodeSegment}
  {s : Session p}

/-- The upload succeeds exactly under the condition. -/
def SucceedsIff (condition : Prop) (result : Except RpcError UInt16) : Prop :=
  (∃ start, result = .ok start) ↔ condition

theorem succeedsIff_ok (h : condition) (start : UInt16) : SucceedsIff condition (.ok start) :=
  iff_of_true ⟨start, rfl⟩ h

theorem succeedsIff_error (h : ¬ condition) (e : RpcError) : SucceedsIff condition (.error e) := by
  refine iff_of_false ?_ h
  rintro ⟨start, hstart⟩
  cases hstart

variable (haddress : dev.address = p.busAddress) (hfrom : 0 ≤ link.fromAddress)
  (hfair : Fair link dev.retryCount) (hcode : InRange code)

include haddress hfrom hfair hcode

/-- A commit whose answer is lost is refused the second time. -/
theorem committing_finishes (h : Flashing code s.device) (start : UInt16) :
    Finishes link dev code (SucceedsIff (losesNext link 4 s = false)) (.committing start) s := by
  apply Finishes.of_statement
  unfold pushCodeAt
  apply Program.Ends.map
  apply (unitTransaction_ends haddress hfair (answers_commit hfrom h.stage (h.not_low hcode))
    (answers_commit_again hfrom rfl) (by decide)).mono
  rintro r s' ⟨-, -, rfl⟩
  cases hlost : losesNext link 4 s with
  | true => exact finishes_returned (succeedsIff_error (by decide) _)
  | false => exact finishes_returned (succeedsIff_ok rfl start)

/-- The loop comes to its end; the induction is on the bytes that are left. -/
theorem pushing_finishes (h : Flashing code s.device)
    (haddr : addr = 0 ∨ addr = s.device.flashCrntAddress) (start : UInt16) :
    Finishes link dev code (SucceedsIff (losesNext link 4 s = false)) (.pushing start addr) s := by
  induction hk : code.codeEnd - s.device.flashCrntAddress.toNat using Nat.strong_induction_on
    generalizing s addr with
  | h k ih =>
    apply Finishes.of_statement
    unfold pushCodeAt
    apply Program.Ends.map
    rcases h.le_end.eq_or_lt with hend | hlt
    · apply (pushRound_end haddress hfrom hfair hend haddr).mono
      rintro r s' ⟨hdevice, hcount, rfl⟩
      have hfinish := committing_finishes haddress hfrom hfair hcode (hdevice ▸ h) start
      unfold losesNext at hfinish ⊢
      rwa [hcount] at hfinish
    · obtain ⟨hflashing, hpassed⟩ := h.push hcode hlt
      apply (pushRound_taken haddress hfrom hfair hcode h hlt rfl haddr).mono
      rintro r s' ⟨hdevice, hcount, hr⟩
      rw [← hdevice] at hflashing hpassed hr
      have hless : code.codeEnd - s'.device.flashCrntAddress.toNat < k := by omega
      unfold losesNext at ih ⊢
      rw [← hcount]
      rcases hr with rfl | rfl
      · exact ih _ hless hflashing (.inl rfl) rfl
      · exact ih _ hless hflashing (.inr rfl) rfl

/-- The device has to be at the start of the code. -/
theorem locating_finishes (hstage : s.device.flashStage ≠ 0) :
    Finishes link dev code (SucceedsIff (s.device.flashCrntAddress.toNat = code.startAddress ∧
      losesNext link 4 s = false)) .locating s := by
  apply Finishes.of_statement
  unfold pushCodeAt
  apply Program.Ends.map
  apply (flashGetNextAddress_ends haddress hfrom hfair).mono
  rintro r s' ⟨rfl, hdevice, hasks⟩
  have hcount := hasks [2, 4, 4] (by decide)
  by_cases hstart : s.device.flashCrntAddress.toNat = code.startAddress
  · simp only [hstart, ne_eq, not_true_eq_false, if_false, true_and]
    have hflashing : Flashing code s'.device := by
      rw [hdevice]
      exact ⟨hstage, hstart.ge, hstart.le.trans (Nat.le_add_right _ _)⟩
    have hfinish := pushing_finishes haddress hfrom hfair hcode hflashing (.inl rfl)
      s.device.flashCrntAddress
    unfold losesNext at hfinish ⊢
    rwa [hcount] at hfinish
  · simp only [hstart, ne_eq, not_false_eq_true, if_true, false_and]
    exact finishes_returned (succeedsIff_error not_false _)

/-- A start whose answer is lost is refused the second time. -/
theorem starting_finishes (hstart : code.startAddress = p.appStartAddress)
    (hstage : s.device.flashStage = 0) :
    Finishes link dev code (SucceedsIff ((p.allocates = true ∧ losesNext link 1 s = false) ∧
      losesNext link 4 s = false)) .starting s := by
  apply Finishes.of_statement
  unfold pushCodeAt
  apply Program.Ends.map
  cases halloc : p.allocates with
  | false =>
    apply (unitTransaction_ends haddress hfair (answers_start_fails hfrom halloc hstage)
      (answers_start_fails hfrom halloc hstage) (by decide)).mono
    rintro r s' ⟨-, -, rfl⟩
    cases losesNext link 1 s <;> exact finishes_returned (succeedsIff_error (by simp) _)
  | true =>
    apply (unitTransaction_ends haddress hfair (answers_start hfrom halloc hstage)
      (answers_start_again hfrom halloc) (by decide)).mono
    rintro r s' ⟨hdevice, hasks, rfl⟩
    cases losesNext link 1 s with
    | true => exact finishes_returned (succeedsIff_error (by simp) _)
    | false =>
      have hcount := hasks [2, 4, 4] (by decide)
      have hend : code.startAddress < 2 ^ 16 :=
        lt_of_le_of_lt (Nat.le_add_right _ code.data.length) hcode.end_lt
      have haddr : s'.device.flashCrntAddress.toNat = code.startAddress := by
        rw [hdevice, hstart] at *
        exact Nat.mod_eq_of_lt hend
      have hstage' : s'.device.flashStage ≠ 0 := by
        rw [hdevice]
        show (1 : UInt8) ≠ 0
        decide
      have hfinish := locating_finishes haddress hfrom hfair hcode hstage'
      unfold losesNext at hfinish ⊢
      simpa [haddr, hcount] using hfinish

omit haddress hfrom hfair hcode in
/-- The device gets into the flashing stage with its address at the start of the code.  A device
that is in the flashing stage is not started. -/
def StartsWell (link : LossyLink) (code : CodeSegment) (device : Flash p) : Prop :=
  if device.flashStage = 0 then p.allocates = true ∧ link.lost [2, 4, 1] 0 = false
  else device.flashCrntAddress.toNat = code.startAddress

/-- The upload from its first statement on. -/
theorem staging_finishes (hstart : code.startAddress = p.appStartAddress) (device : Flash p) :
    Finishes link dev code (SucceedsIff (StartsWell link code device ∧
      link.lost [2, 4, 4] 0 = false)) .staging ⟨device, []⟩ := by
  apply Finishes.of_statement
  unfold pushCodeAt
  apply Program.Ends.map
  apply (flashGetStage_ends haddress hfrom hfair).mono
  rintro r s' ⟨rfl, hdevice, hasks⟩
  have hdevice' : s'.device = device := hdevice
  have hcount₁ : s'.asked.count [2, 4, 1] = 0 := hasks [2, 4, 1] (by decide)
  have hcount₄ : s'.asked.count [2, 4, 4] = 0 := hasks [2, 4, 4] (by decide)
  unfold StartsWell
  by_cases hstage : device.flashStage = 0
  · have hfinish := starting_finishes haddress hfrom hfair hcode hstart (hdevice' ▸ hstage)
    unfold losesNext at hfinish
    simpa [hstage, hcount₁, hcount₄] using hfinish
  · have hne : device.flashStage.toInt8 ≠ 0 := by
      intro hzero
      have hback : device.flashStage = Int8.toUInt8 0 := by simpa using congrArg Int8.toUInt8 hzero
      exact hstage hback
    have hfinish := locating_finishes haddress hfrom hfair hcode (s := s') (hdevice' ▸ hstage)
    unfold losesNext at hfinish
    simpa [hstage, hne, hcount₄, hdevice'] using hfinish

end Finish

/-! ## The upload -/

section Upload

variable {p : Platform} {link : LossyLink} {dev : UartBusDevice} {code : CodeSegment}

/-- A result stays when more statements are allowed. -/
theorem exec_pushCodeFrom_mono {s s' : Session p} {n m : ℕ} (hle : n ≤ m)
    (h : (pushCodeFrom dev code n point).exec (Session.respond link dev) s =
      some (.returned result, s')) :
    (pushCodeFrom dev code m point).exec (Session.respond link dev) s =
      some (.returned result, s') := by
  induction m generalizing n point s with
  | zero =>
    obtain rfl := Nat.le_zero.mp hle
    exact h
  | succ m ih =>
    unfold pushCodeFrom
    cases n with
    | zero =>
      cases h
      exact ih (Nat.zero_le m) rfl
    | succ n =>
      unfold pushCodeFrom at h
      rw [Program.exec_bind] at h ⊢
      obtain ⟨r, hr, hrest⟩ := Option.bind_eq_some_iff.mp h
      rw [hr]
      exact ih (Nat.le_of_succ_le_succ hle) hrest

theorem pushCodeReturns_unique {device : Flash p} {result' : Except RpcError UInt16}
    (h : PushCodeReturns link dev code device result)
    (h' : PushCodeReturns link dev code device result') : result = result' := by
  obtain ⟨n, s, hexec⟩ := h
  obtain ⟨m, s', hexec'⟩ := h'
  have heq := (exec_pushCodeFrom_mono (Nat.le_max_left n m) hexec).symm.trans
    (exec_pushCodeFrom_mono (Nat.le_max_right n m) hexec')
  cases heq
  rfl

theorem Finishes.returns {Q : Except RpcError UInt16 → Prop} {device : Flash p}
    (h : Finishes link dev code Q .staging ⟨device, []⟩) :
    ∃ result, PushCodeReturns link dev code device result ∧ Q result := by
  obtain ⟨n, hends⟩ := h
  obtain ⟨point, s', hexec, result, rfl, hQ⟩ := Program.ends_iff_exec.mp hends
  exact ⟨result, ⟨n, s', hexec⟩, hQ⟩

/-- **Uploads over a link that loses answers.**  With fewer than `retry_count` lost answers in a
row `push_code` returns, and it returns no error exactly when the device starts well and the
answer to the first commit arrives.
SOURCE: upload.rs:68-81, 159-235; ub_bootloader.c:235-352 -/
theorem lossy_upload_iff (p : Platform) (link : LossyLink) (dev : UartBusDevice)
    (code : CodeSegment) (device : Flash p) (haddress : dev.address = p.busAddress)
    (hfrom : 0 ≤ link.fromAddress) (hfair : Fair link dev.retryCount)
    (hstart : code.startAddress = p.appStartAddress) (hend : code.codeEnd < 0x10000) :
    (∃ result, PushCodeReturns link dev code device result) ∧
      ((∀ e, ¬ PushCodeReturns link dev code device (.error e)) ↔
        StartsWell link code device ∧ link.lost [2, 4, 4] 0 = false) := by
  have hcode : InRange code := ⟨hstart.symm ▸ p.start_ge, hend⟩
  obtain ⟨result, hreturns, hsucceeds⟩ :=
    (staging_finishes haddress hfrom hfair hcode hstart device).returns
  refine ⟨⟨result, hreturns⟩, Iff.trans ?_ hsucceeds⟩
  constructor
  · intro hnone
    cases result with
    | ok start => exact ⟨start, rfl⟩
    | error e => exact absurd hreturns (hnone e)
  · rintro ⟨start, rfl⟩ e he
    cases pushCodeReturns_unique hreturns he

/-- A link that loses the answer to the first request of a function of 2:4. -/
def losesFirst (index : UInt8) : LossyLink :=
  { fromAddress := 1, lost := fun path k => decide (path = [2, 4, index] ∧ k = 0) }

theorem fair_losesFirst (index : UInt8) : Fair (losesFirst index) 2 := by
  intro path k
  refine ⟨1, by decide, ?_⟩
  simp [losesFirst]

/-- The answer to the first push of five bytes is lost. -/
theorem lossy_upload_push :
    (losesFirst 3).lost [2, 4, 3] 0 = true ∧
      ∀ e, ¬ PushCodeReturns (p := smallPlatform) (losesFirst 3) ⟨2, 100, 2⟩ smallCode
        (Flash.powerOn (Vector.replicate 4 0) true) (.error e) := by
  refine ⟨by decide, ?_⟩
  have hiff := lossy_upload_iff smallPlatform (losesFirst 3) ⟨2, 100, 2⟩ smallCode
    (Flash.powerOn (Vector.replicate 4 0) true) rfl (by decide) (fair_losesFirst 3) rfl (by decide)
  exact hiff.2.mpr ⟨⟨rfl, by decide⟩, by decide⟩

/-- The error that `push_code` has returned, if it has. -/
def returnedError : UploadPoint → Option RpcError
  | .returned (.error e) => some e
  | _ => none

theorem returned_of_error (h : returnedError point = some e) : point = .returned (.error e) := by
  unfold returnedError at h
  split at h
  next => cases h; rfl
  next => cases h

theorem pushCodeReturns_of_exec {device : Flash p} (n : ℕ)
    (h : ((pushCodeFrom dev code n .staging).exec (Session.respond link dev) ⟨device, []⟩).bind
      (fun r => returnedError r.1) = some e) : PushCodeReturns link dev code device (.error e) := by
  obtain ⟨r, hexec, hr⟩ := Option.bind_eq_some_iff.mp h
  refine ⟨n, r.2, hexec.trans ?_⟩
  rw [← returned_of_error hr]

/-- Without the answer to the first start the upload ends with `EALREADY`, and without the answer
to the first commit with `EBADFD`. -/
theorem lossy_upload_fails :
    Fair (losesFirst 1) 2 ∧ Fair (losesFirst 4) 2 ∧
      PushCodeReturns (p := smallPlatform) (losesFirst 1) ⟨2, 100, 2⟩ smallCode
        (Flash.powerOn (Vector.replicate 4 0) true) (.error (.posix EALREADY)) ∧
      PushCodeReturns (p := smallPlatform) (losesFirst 4) ⟨2, 100, 2⟩ smallCode
        (Flash.powerOn (Vector.replicate 4 0) true) (.error (.posix EBADFD)) :=
  ⟨fair_losesFirst 1, fair_losesFirst 4, pushCodeReturns_of_exec 2 (by decide +kernel),
    pushCodeReturns_of_exec 6 (by decide +kernel)⟩

end Upload

/-! ## Sessions as runs -/

section Sessions

variable {p : Platform} {link : LossyLink} {dev : UartBusDevice} {code : CodeSegment} {r : Request}
  {next : Outcome → ClientProgram UploadPoint} {id : ℕ}

/-- The system with nothing in flight. -/
def restingSystem (link : LossyLink) (program : ClientProgram UploadPoint) (id : ℕ)
    (device : Flash p) : UploadSystem p :=
  ⟨program, none, ⟨link.fromAddress, [], id⟩, [], [], device⟩

/-- The system with a transaction that waits, and answers on their way. -/
def waitingSystem (link : LossyLink) (dev : UartBusDevice) (r : Request)
    (next : Outcome → ClientProgram UploadPoint) (id : ℕ) (answers : List Packet)
    (device : Flash p) : UploadSystem p :=
  ⟨.ask r next, some (id, none),
    ⟨link.fromAddress, [(id, ⟨dev.address, link.fromAddress, r.path, true⟩)], id + 1⟩, [], answers,
    device⟩

theorem reaches_lost (s : UploadSystem p) (kept lost : List Packet) : Reaches (uploadStep dev code)
    { s with answers := kept ++ lost } { s with answers := kept } := by
  induction lost with
  | nil =>
    rw [List.append_nil]
    exact Reaches.refl _
  | cons answer lost ih =>
    refine (Reaches.single (.loseAnswer kept.length) ?_).trans ih
    simp [uploadStep, List.eraseIdx_append_of_length_le]

/-- A request of a session is a run of the system. -/
theorem reaches_response (s : Session p) :
    Reaches (uploadStep dev code) (restingSystem link (.ask r next) id s.device)
      (restingSystem link (next (Session.respond link dev r s).1) (id + 1)
        (Session.respond link dev r s).2.device) := by
  unfold Session.respond
  dsimp only
  generalize hdispatch : s.device.dispatch ⟨dev.address, link.fromAddress, r.payload⟩ = answered
  obtain ⟨device, answers⟩ := answered
  have hgaveUp : Reaches (uploadStep dev code) (waitingSystem link dev r next id [] device)
      (restingSystem link (next .timedOut) (id + 1) device) :=
    ⟨[.giveUp], by
      simp [run, uploadStep, restingSystem, waitingSystem, UartBus.revokePendingRequest]⟩
  cases hawaited : r.awaited with
  | false =>
    refine Reaches.trans ⟨[.send, .deliverRequest], ?_⟩
      (reaches_lost (restingSystem link (next .sent) (id + 1) device) [] answers)
    simp [run, uploadStep, restingSystem, hawaited, hdispatch, UartBus.newTransaction,
      UartBus.register, UartBus.revokePendingRequest]
  | true =>
    refine Reaches.trans (m := waitingSystem link dev r next id answers device)
      ⟨[.send, .deliverRequest], ?_⟩ ?_
    · simp [run, uploadStep, restingSystem, waitingSystem, hawaited, hdispatch,
        UartBus.newTransaction, UartBus.register]
    cases answers with
    | nil => exact hgaveUp
    | cons answer more =>
      refine (reaches_lost (waitingSystem link dev r next id [] device) [answer] more).trans ?_
      simp only [if_true, List.head?_cons]
      split_ifs with hlost haccept
      · exact (reaches_lost _ [] [answer]).trans hgaveUp
      · exact ⟨[.deliverAnswer, .receive], by
          simp [run, uploadStep, restingSystem, waitingSystem, UartBus.processPacket,
            storeResponse, UartBus.revokePendingRequest, haccept]⟩
      · refine (Reaches.single .deliverAnswer ?_).trans hgaveUp
        simp [uploadStep, waitingSystem, UartBus.processPacket, storeResponse, haccept]

variable (code) in
/-- A program up to its end. -/
theorem reaches_exec {q : ClientProgram UploadPoint} {s s' : Session p}
    (h : q.exec (Session.respond link dev) s = some (point, s')) (id : ℕ) :
    ∃ id', Reaches (uploadStep dev code) (restingSystem link q id s.device)
      (restingSystem link (.done point) id' s'.device) := by
  induction q generalizing s id with
  | done a =>
    cases h
    exact ⟨id, Reaches.refl _⟩
  | ask r next ih =>
    obtain ⟨id', hreach⟩ := ih _ h (id + 1)
    exact ⟨id', (reaches_response s).trans hreach⟩
  | diverge => cases h

/-- The statements of `push_code` one after the other; the induction is on their number. -/
theorem reaches_returned {n : ℕ} {s s' : Session p}
    (h : (pushCodeFrom dev code n point).exec (Session.respond link dev) s =
      some (.returned result, s')) (id : ℕ) :
    ∃ id', Reaches (uploadStep dev code)
      (restingSystem link (pushCodeAt dev code point) id s.device)
      (restingSystem link (.done (.returned result)) id' s'.device) := by
  induction n generalizing point s id with
  | zero =>
    cases h
    exact ⟨id, Reaches.refl _⟩
  | succ n ih =>
    unfold pushCodeFrom at h
    rw [Program.exec_bind] at h
    obtain ⟨⟨next, s₁⟩, hexec, hrest⟩ := Option.bind_eq_some_iff.mp h
    obtain ⟨id₁, hfirst⟩ := reaches_exec code hexec id
    obtain ⟨id', hthen⟩ := ih hrest id₁
    -- a return is no statement to go on to
    cases next with
    | returned result => exact ⟨id', hfirst.trans hthen⟩
    | staging | starting | locating | pushing _ _ | committing _ =>
      exact ⟨id', (hfirst.trans (Reaches.single .advance rfl)).trans hthen⟩

end Sessions

end Uartbus.Analysis
