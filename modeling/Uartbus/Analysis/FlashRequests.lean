import Uartbus.Analysis.FlashProgramming

/-!
# Answers and pages of the flash functions

Two results about the requests of 2:4.  A request gets one answer, and one that is not answered
with 0 leaves the flash variables alone (`Atomic`); a start request in an upload that has begun is
the exception.  And the calls of `ubh_impl_write_program_page` stay in the application area
(`PageInside`), which `Room` carries through the loop of `fill_flash`: the rest of a push ends
before the first page behind the 16 bit addresses is full.
-/

set_option autoImplicit false

namespace Uartbus.Analysis

open Lib Interface Model

variable {params : Bytes} {index : UInt8}

/-! ## One answer -/

section Answers

variable {p : Platform} {s : Flash p} {req : RpcRequest}

/-- One answer was sent, and the state has changed only if it carries the error number 0. -/
def Atomic (s : Flash p) (r : Flash p × List Packet) : Prop :=
  ∃ answer, r.2 = [answer] ∧ (answeredZero [answer] = false → r.1 = s)

theorem atomic_same (s : Flash p) (answer : Packet) : Atomic s (s, [answer]) :=
  ⟨answer, rfl, fun _ => rfl⟩

/-- An answer of a function of 2:4 that begins with 0. -/
theorem answeredZero_ilReply (bytes : Bytes)
    (hpayload : req.payload = 2 :: 4 :: index :: params) (hptr : req.procPtr = 3) :
    answeredZero [ilReply p req (0 :: bytes)] = true := by
  simp [answeredZero, ilReply, hpayload, hptr]

theorem atomic_zero (s s' : Flash p) (bytes : Bytes)
    (hpayload : req.payload = 2 :: 4 :: index :: params) (hptr : req.procPtr = 3) :
    Atomic s (s', [ilReply p req (0 :: bytes)]) := by
  refine ⟨_, rfl, fun hzero => ?_⟩
  rw [answeredZero_ilReply bytes hpayload hptr] at hzero
  cases hzero

theorem blfStartFlash_atomic (hpayload : req.payload = 2 :: 4 :: 1 :: params)
    (hptr : req.procPtr = 3) (hstage : s.flashStage ≠ 1) :
    Atomic s (Flash.blfStartFlash req s) := by
  unfold Flash.blfStartFlash
  simp only [if_neg hstage, List.nil_append]
  split
  · exact atomic_zero s _ [] hpayload hptr
  · exact atomic_same s _

/-- A start in stage 1 is answered with `EALREADY` and once more. -/
theorem blfStartFlash_not_atomic (hstage : s.flashStage = 1) :
    ¬ Atomic s (Flash.blfStartFlash req s) := by
  rintro ⟨answer, hanswers, -⟩
  unfold Flash.blfStartFlash at hanswers
  simp only [if_pos hstage] at hanswers
  split at hanswers <;> cases hanswers

theorem blfPushCode_atomic (hpayload : req.payload = 2 :: 4 :: 3 :: params)
    (hptr : req.procPtr = 3) :
    Atomic s (Flash.blfPushCode req s) := by
  unfold Flash.blfPushCode
  dsimp only
  split
  · exact atomic_same s _
  split
  · exact atomic_same s _
  split
  · exact atomic_same s _
  split
  · exact atomic_same s _
  · exact atomic_zero s _ _ hpayload hptr

theorem commitFlash_atomic (hpayload : req.payload = 2 :: 4 :: 4 :: params)
    (hptr : req.procPtr = 3) :
    Atomic s (Flash.commitFlash req s) := by
  unfold Flash.commitFlash
  split
  · exact atomic_same s _
  split
  · exact atomic_same s _
  · exact atomic_zero s _ [] hpayload hptr

/-- The handlers of 2:4 other than the start in stage 1. -/
theorem rpcBootloaderFlash_atomic (hpath : req.payload.take 2 = [2, 4]) (hptr : req.procPtr = 2)
    (hstart : ¬ (s.flashStage = 1 ∧ req.payload[2]? = some 1)) :
    Atomic s (Flash.rpcBootloaderFlash req s) := by
  obtain ⟨rest, hpayload⟩ := exists_flash_path hpath
  unfold Flash.rpcBootloaderFlash dispatchFunctionChain
  rw [hptr]
  cases rest with
  | nil =>
    have hnone : req.payload[2]? = none := by
      rw [hpayload]
      rfl
    rw [hnone]
    exact atomic_same s _
  | cons index params =>
    have hindex : req.payload[2]? = some index := by
      rw [hpayload]
      rfl
    rw [hindex] at hstart ⊢
    dsimp only
    by_cases hlt : index.toNat < 5
    · rcases flash_index_cases hlt with rfl | rfl | rfl | rfl | rfl
      · exact atomic_same s _
      · exact blfStartFlash_atomic hpayload rfl fun hstage => hstart ⟨hstage, rfl⟩
      · exact atomic_same s _
      · exact blfPushCode_atomic hpayload rfl
      · exact commitFlash_atomic hpayload rfl
    · rw [bootloaderFlashFunctions_none hlt]
      exact atomic_same s _

/-- **Requests are atomic and answered once, but for a start in stage 1.**  In every state and for
every request of 2:4, exactly then the handler calls `reply` once and, if the answer does not carry
the error number 0, leaves all of the flash variables and the page writes as before.
SOURCE: ub_bootloader.c:235-262, 287-352; rpc.c:106-129 -/
theorem flash_request_atomic_iff (p : Platform) (s : Flash p) (req : RpcRequest)
    (hpath : req.payload.take 2 = [2, 4]) (hptr : req.procPtr = 2) :
    Atomic s (Flash.rpcBootloaderFlash req s) ↔
      ¬ (s.flashStage = 1 ∧ req.payload[2]? = some 1) := by
  refine ⟨fun hatomic hstart => ?_, rpcBootloaderFlash_atomic hpath hptr⟩
  unfold Flash.rpcBootloaderFlash dispatchFunctionChain at hatomic
  rw [hptr, hstart.2] at hatomic
  exact blfStartFlash_not_atomic hstart.1 hatomic

/-- A push of one byte at the right address. -/
theorem flash_request_atomic_iff_push :
    Atomic (startedFlash (Flash.powerOn (p := smallPlatform) (Vector.replicate 4 0) true))
      (Flash.rpcBootloaderFlash ⟨2, 1, [2, 4, 3, 0x20, 0, 7], 2, by decide⟩
        (startedFlash (Flash.powerOn (Vector.replicate 4 0) true))) :=
  (flash_request_atomic_iff smallPlatform _ _ (by decide) rfl).mpr (by decide)

/-- A start request after a start and a push: the function sends `EALREADY`, goes on, sets the
address back and answers once more. -/
theorem start_answers_twice :
    ∃ s : Served smallPlatform,
      run serve (Served.powerOn (Vector.replicate 4 0) true)
        [⟨2, 1, [2, 4, 1]⟩, ⟨2, 1, [2, 4, 3, 0x20, 0, 7]⟩] = some s ∧
      ¬ Atomic s.flash (Flash.rpcBootloaderFlash ⟨2, 1, [2, 4, 1], 2, by decide⟩ s.flash) ∧
      (Flash.rpcBootloaderFlash ⟨2, 1, [2, 4, 1], 2, by decide⟩ s.flash).2 =
        [flashAnswer smallPlatform 1 1 [EALREADY], flashAnswer smallPlatform 1 1 [0]] ∧
      s.flash.flashCrntAddress = 0x2001 ∧
      (Flash.rpcBootloaderFlash ⟨2, 1, [2, 4, 1], 2, by decide⟩ s.flash).1.flashCrntAddress =
        0x2000 := by
  refine ⟨_, rfl, ?_, rfl, rfl, rfl⟩
  rintro ⟨answer, hanswers, -⟩
  cases hanswers

end Answers

/-! ## The pages -/

section Pages

variable {p : Platform} {s : Flash p}

/-- A page of the application area, or the beginning of one. -/
structure PageInside (p : Platform) (w : PageWrite) : Prop where
  aligned : p.pageSize ∣ w.page
  size_le : w.data.length ≤ p.pageSize
  start_le : p.appStartAddress ≤ w.page
  end_le : w.page + w.data.length ≤ 0x10000

/-- The state before `n` more bytes: they end before a page behind `0xFFFF` is full, or the
address has passed `0xFFFF` and they do not fill the page at 0. -/
def Room (s : Flash p) (n : ℕ) : Prop :=
  (p.appStartAddress ≤ s.flashCrntAddress.toNat ∧
      s.flashCrntAddress.toNat + n < 0x10000 + p.pageSize) ∨
    s.flashCrntAddress.toNat + n < p.pageSize

theorem pageSize_le (p : Platform) : p.pageSize ≤ 128 := by
  obtain ⟨k, hk, hp⟩ := p.isPow
  rw [hp]
  exact Nat.pow_le_pow_right (by decide) hk

theorem pageSize_dvd (p : Platform) : p.pageSize ∣ 0x10000 := by
  obtain ⟨k, hk, hp⟩ := p.isPow
  rw [hp]
  exact Nat.pow_dvd_pow 2 (Nat.le_trans hk (by decide : 7 ≤ 16))

/-- The page of an address behind `APP_START_ADDRESS`. -/
theorem appStart_le_page {a : ℕ} (h : p.appStartAddress ≤ a) :
    p.appStartAddress ≤ a - a % p.pageSize :=
  PagedWriter.le_base (w := ⟨a, Vector.replicate p.pageSize (), fun _ => ()⟩) p.aligned h

/-- The address after `0xFFFF` is 0. -/
theorem toNat_succ_wrap {x : UInt16} (h : ¬ x.toNat + 1 < 0x10000) :
    x.toNat = 0xFFFF ∧ (x + 1).toNat = 0 := by
  have hlt := x.toNat_lt
  have hx : x.toNat = 0xFFFF := by omega
  refine ⟨hx, ?_⟩
  rw [UInt16.toNat_add, hx]
  rfl

/-- The page that is full behind the address `a`. -/
theorem pageInside_full {a : ℕ} (hstart : p.appStartAddress ≤ a) (hlt : a < 0x10000)
    (hfull : (a + 1) % p.pageSize = 0) (tmp : Vector UInt8 p.pageSize) :
    PageInside p ⟨a - a % p.pageSize, tmp.toList⟩ := by
  have hmod : a % p.pageSize + 1 = p.pageSize := by
    rcases PagedWriter.succ_mod_cases (n := p.pageSize) a with ⟨hall, -⟩ | hmod
    · exact hall
    · omega
  refine ⟨Nat.dvd_sub_mod a, ?_, appStart_le_page hstart, ?_⟩
  · simp
  · have hle := Nat.mod_le a p.pageSize
    simp only [Vector.length_toList]
    omega

/-- One round of `fill_flash` writes no page outside. -/
theorem fillByte_inside {n : ℕ} (hroom : Room s (n + 1))
    (hpages : ∀ w ∈ s.pages, PageInside p w) (b : UInt8) :
    Room (s.fillByte b) n ∧ ∀ w ∈ (s.fillByte b).pages, PageInside p w := by
  have hpred : s.flashCrntAddress + 1 - 1 = s.flashCrntAddress :=
    UInt16.add_sub_cancel s.flashCrntAddress 1
  have hlt := s.flashCrntAddress.toNat_lt
  have hnext : (s.fillByte b).flashCrntAddress = s.flashCrntAddress + 1 := rfl
  rcases hroom with ⟨hstart, hend⟩ | hlow
  · -- the address is in the application area: the next one is, or it has passed 0xFFFF
    have hfull : (s.flashCrntAddress + 1).toNat % p.pageSize = 0 →
        (s.flashCrntAddress.toNat + 1) % p.pageSize = 0 := by
      intro hmod
      by_cases hsucc : s.flashCrntAddress.toNat + 1 < 0x10000
      · rwa [toNat_succ hsucc] at hmod
      · rw [(toNat_succ_wrap hsucc).1]
        exact Nat.mod_eq_zero_of_dvd (pageSize_dvd p)
    refine ⟨?_, ?_⟩
    · unfold Room
      rw [hnext]
      by_cases hsucc : s.flashCrntAddress.toNat + 1 < 0x10000
      · rw [toNat_succ hsucc]
        exact .inl ⟨by omega, by omega⟩
      · obtain ⟨hlast, hzero⟩ := toNat_succ_wrap hsucc
        exact .inr (by omega)
    · intro w hw
      simp only [Flash.fillByte, hpred] at hw
      split at hw
      next hmod =>
        rcases List.mem_append.mp hw with hw | hw
        · exact hpages w hw
        · rw [List.mem_singleton.mp hw, toNat_and_not_pageBits]
          exact pageInside_full hstart hlt (hfull hmod) _
      next => exact hpages w hw
  · -- the address has passed 0xFFFF: the page at 0 is not full yet
    have hsize := pageSize_le p
    have hsucc : (s.flashCrntAddress + 1).toNat = s.flashCrntAddress.toNat + 1 :=
      toNat_succ (by omega)
    refine ⟨?_, ?_⟩
    · unfold Room
      rw [hnext, hsucc]
      exact .inr (by omega)
    · have hnot : ¬ (s.flashCrntAddress.toNat + 1) % p.pageSize = 0 := by
        rw [Nat.mod_eq_of_lt (by omega)]
        omega
      simp only [Flash.fillByte, hsucc, if_neg hnot]
      exact hpages

theorem fillFlash_inside {buf : Bytes} (hroom : Room s buf.length)
    (hpages : ∀ w ∈ s.pages, PageInside p w) :
    Room (s.fillFlash buf) 0 ∧ ∀ w ∈ (s.fillFlash buf).pages, PageInside p w := by
  induction buf generalizing s with
  | nil => exact ⟨hroom, hpages⟩
  | cons b buf ih =>
    obtain ⟨hroom', hpages'⟩ := fillByte_inside hroom hpages b
    exact ih hroom' hpages'

/-- What holds after any requests that meet the condition. -/
structure PagesInv (s : Flash p) : Prop where
  room : s.flashStage ≠ 0 → Room s 0
  inside : ∀ w ∈ s.pages, PageInside p w

/-- An address that passes the check of a push and of a commit has not passed `0xFFFF`. -/
theorem PagesInv.start_le (h : PagesInv s) (hstage : s.flashStage ≠ 0)
    (haddr : 0x1f00 ≤ s.flashCrntAddress) : p.appStartAddress ≤ s.flashCrntAddress.toNat := by
  have hge : 0x1f00 ≤ s.flashCrntAddress.toNat := UInt16.le_iff_toNat_le.mp haddr
  have hsize := pageSize_le p
  rcases h.room hstage with ⟨hstart, -⟩ | hlow
  · exact hstart
  · omega

theorem PagesInv.started (h : PagesInv s) (hlow : p.appStartAddress < 0x10000) :
    PagesInv (startedFlash s) where
  room _ := by
    have haddr : (startedFlash s).flashCrntAddress.toNat = p.appStartAddress :=
      Nat.mod_eq_of_lt hlow
    unfold Room
    rw [haddr]
    exact .inl ⟨le_rfl, by omega⟩
  inside := h.inside

theorem PagesInv.pushed (h : PagesInv s) {data : Bytes} (hstage : s.flashStage ≠ 0)
    (haddr : 0x1f00 ≤ s.flashCrntAddress)
    (hend : s.flashCrntAddress.toNat + data.length < 0x10000 + p.pageSize) :
    PagesInv (s.fillFlash data) := by
  obtain ⟨hroom, hpages⟩ :=
    fillFlash_inside (.inl ⟨h.start_le hstage haddr, hend⟩) h.inside
  exact ⟨fun _ => hroom, hpages⟩

theorem PagesInv.committed (h : PagesInv s) (hstage : s.flashStage ≠ 0)
    (haddr : 0x1f00 ≤ s.flashCrntAddress) :
    PagesInv { s with pages := commitPages s, flashStage := 0 } where
  room hne := absurd rfl hne
  inside w hw := by
    have hstart := h.start_le hstage haddr
    have hlt := s.flashCrntAddress.toNat_lt
    simp only [commitPages] at hw
    split at hw
    next =>
      rcases List.mem_append.mp hw with hw | hw
      · exact h.inside w hw
      · rw [List.mem_singleton.mp hw, toNat_and_not_pageBits, toNat_and_pageBits]
        have hle := Nat.mod_le s.flashCrntAddress.toNat p.pageSize
        refine ⟨Nat.dvd_sub_mod _, ?_, appStart_le_page hstart, ?_⟩ <;>
          simp only [List.length_take, Vector.length_toList] <;> omega
    next => exact h.inside w hw

/-- A push at the present address does not fill a page behind `0xFFFF`. -/
def PushStays (s : Served p) (packet : Packet) : Prop :=
  s.flash.flashCrntAddress.toNat + (packet.payload.drop 5).length < 0x10000 + p.pageSize ∨
    packet.payload.take 5 ≠
      [2, 4, 3, highByte s.flash.flashCrntAddress, lowByte s.flash.flashCrntAddress]

instance decidablePushStays (s : Served p) (packet : Packet) : Decidable (PushStays s packet) :=
  inferInstanceAs (Decidable (_ ∨ _))

theorem PagesInv.step (hlow : p.appStartAddress < 0x10000) {s s' : Served p} {packet : Packet}
    (h : PagesInv s.flash) (hstays : PushStays s packet) (hserve : serve s packet = some s') :
    PagesInv s'.flash := by
  have hcase := dispatch_case s.flash packet
  unfold serve at hserve
  generalize s.flash.dispatch packet = r at hserve hcase
  obtain ⟨flash', answers⟩ := r
  cases hserve
  cases hcase with
  | ignored | unknown | stage | startFails | nextAddr | refused => exact h
  | start => exact h.started hlow
  | pushed data hstage haddr hpayload =>
    refine h.pushed hstage haddr ?_
    rcases hstays with hend | hother
    · rwa [hpayload] at hend
    · exact absurd (by rw [hpayload]; rfl) hother
  | committed params hstage haddr => exact h.committed hstage haddr

/-- **Pages stay in the application area.**  After any requests of 2:4 of which none pushes a
whole page beyond `0xFFFF`, on a device with an application area in the 16 bit addresses: every
call of `ubh_impl_write_program_page` was for a page, with at most a page of bytes, from
`APP_START_ADDRESS` on and up to `0x10000`.
SOURCE: ub_bootloader.c:265-285, 304-318, 330-347 -/
theorem pages_stay_inside (p : Platform) (tmp : Vector UInt8 p.pageSize) (appRun : Bool)
    (packets : List Packet) (s : Served p) (hlow : p.appStartAddress < 0x10000)
    (hrun : run serve (Served.powerOn tmp appRun) packets = some s)
    (hstays : Along serve PushStays (Served.powerOn tmp appRun) packets) :
    ∀ w ∈ s.flash.pages, PageInside p w := by
  have hstart : PagesInv (Served.powerOn (p := p) tmp appRun).flash :=
    ⟨fun hne => absurd rfl hne, fun w hw => by cases hw⟩
  have hinv : PagesInv s.flash :=
    run_invariant (I := fun s => PagesInv s.flash)
      (fun _ _ _ hs hP hstep => hs.step hlow hP hstep) hstart hstays hrun
  exact hinv.inside

/-- A start, a push over a page boundary, and the commit. -/
theorem pages_stay_inside_six_bytes :
    ∃ s : Served smallPlatform,
      run serve (Served.powerOn (Vector.replicate 4 0) true)
        [⟨2, 1, [2, 4, 1]⟩, ⟨2, 1, [2, 4, 3, 0x20, 0, 1, 2, 3, 4, 5, 6]⟩, ⟨2, 1, [2, 4, 4]⟩] =
          some s ∧
      s.flash.pages.length = 2 ∧ ∀ w ∈ s.flash.pages, PageInside smallPlatform w := by
  refine exists_eq_some (Q := fun s => s.flash.pages.length = 2) (by decide +kernel)
    fun s hrun hpages => ⟨hpages, ?_⟩
  exact pages_stay_inside smallPlatform (Vector.replicate 4 0) true _ s (by decide) hrun
    (by decide +kernel)

/-- A device whose application area is the last page of the 16 bit addresses. -/
def lastPagePlatform : Platform :=
  { pageSize := 4
    appStartAddress := 0xFFFC
    busAddress := 2
    allocates := true
    isPow := smallPlatform.isPow
    aligned := by decide
    start_ge := by decide }

/-- A push of two pages onto the last one: the second page is written at 0. -/
theorem page_written_at_zero :
    ∃ s : Served lastPagePlatform,
      run serve (Served.powerOn (Vector.replicate 4 0) true)
        [⟨2, 1, [2, 4, 1]⟩, ⟨2, 1, [2, 4, 3, 0xFF, 0xFC, 1, 2, 3, 4, 5, 6, 7, 8]⟩] = some s ∧
      s.flash.pages = [⟨0xFFFC, [1, 2, 3, 4]⟩, ⟨0, [5, 6, 7, 8]⟩] ∧
      ¬ ∀ w ∈ s.flash.pages, PageInside lastPagePlatform w := by
  refine exists_eq_some (Q := fun s => s.flash.pages =
    [⟨0xFFFC, [1, 2, 3, 4]⟩, ⟨0, [5, 6, 7, 8]⟩]) (by decide +kernel)
    fun s _ hpages => ⟨hpages, fun hall => ?_⟩
  have hstart := (hall ⟨0, [5, 6, 7, 8]⟩ (by rw [hpages]; simp)).start_le
  exact absurd hstart (by decide)

end Pages

end Uartbus.Analysis
