import Mathlib.Tactic.IntervalCases
import Uartbus.Lib.PagedWriter
import Uartbus.Interface.FlashImage

/-!
# Programming the flash

`DispatchCase` lists what a device can do with a request of 2:4.  The flash variables are a
writer with a page buffer (`writer`): `fill_flash` puts its bytes into it (`fillFlash_writer`)
and `commit_flash` flushes it (`commitPages_memory`).  Hence after a commit the program memory
holds the data of the accepted pushes (`commit_writes_image`).
-/

set_option autoImplicit false

namespace Uartbus.Analysis

open Lib Interface Model

variable {index : UInt8} {packet : Packet}

/-! ## What a request can do -/

section Cases

variable {p : Platform}

/-- An answer of the function 2:4:`index`. -/
def flashAnswer (p : Platform) (to' : ℤ) (index : UInt8) (bytes : Bytes) : Packet :=
  { toAddress := to', fromAddress := p.busAddress, payload := 0 :: 2 :: 4 :: index :: bytes }

/-- The state after a start. -/
def startedFlash (s : Flash p) : Flash p :=
  { s with
    appRun := false
    flashCrntAddress := UInt16.ofNat p.appStartAddress
    flashStage := 1 }

/-- The pages after the flush of a commit. -/
def commitPages (s : Flash p) : List PageWrite :=
  if s.flashCrntAddress.toNat % p.pageSize ≠ 0 then
    s.pages ++ [{ page := (s.flashCrntAddress &&& ~~~ Flash.pageBits p).toNat
                  data := s.flashTmp.toList.take
                    (s.flashCrntAddress &&& Flash.pageBits p).toNat }]
  else s.pages

/-- The answers of a start: the result, and before it the complaint that there has been one. -/
def StartAnswers (p : Platform) (to' : ℤ) (errno : UInt8) (answers : List Packet) : Prop :=
  answers = [flashAnswer p to' 1 [errno]] ∨
    answers = [flashAnswer p to' 1 [EALREADY], flashAnswer p to' 1 [errno]]

/-- The outcomes of a packet. -/
inductive DispatchCase (s : Flash p) (packet : Packet) : Flash p → List Packet → Prop where
  | ignored : DispatchCase s packet s []
  | unknown (answer : Packet) (h : ∀ index, packet.payload[2]? = some index → 5 ≤ index.toNat)
      (hpath : answer.payload.length = 4) : DispatchCase s packet s [answer]
  | stage (params : Bytes) (h : packet.payload = 2 :: 4 :: 0 :: params) :
      DispatchCase s packet s [flashAnswer p packet.fromAddress 0 [0, s.flashStage]]
  | start (params : Bytes) (h : packet.payload = 2 :: 4 :: 1 :: params)
      (halloc : p.allocates = true) (answers : List Packet)
      (hanswers : StartAnswers p packet.fromAddress 0 answers) :
      DispatchCase s packet (startedFlash s) answers
  | startFails (params : Bytes) (h : packet.payload = 2 :: 4 :: 1 :: params)
      (halloc : p.allocates = false) (answers : List Packet)
      (hanswers : StartAnswers p packet.fromAddress ENOMEM answers) :
      DispatchCase s packet s answers
  | nextAddr (params : Bytes) (h : packet.payload = 2 :: 4 :: 2 :: params) :
      DispatchCase s packet s [flashAnswer p packet.fromAddress 2
        [highByte s.flashCrntAddress, lowByte s.flashCrntAddress]]
  | pushed (data : Bytes) (hstage : s.flashStage ≠ 0)
      (haddr : 0x1f00 ≤ s.flashCrntAddress)
      (h : packet.payload = 2 :: 4 :: 3 :: highByte s.flashCrntAddress ::
        lowByte s.flashCrntAddress :: data) (hdata : data ≠ []) :
      DispatchCase s packet (s.fillFlash data) [flashAnswer p packet.fromAddress 3
        [0, highByte (s.fillFlash data).flashCrntAddress,
          lowByte (s.fillFlash data).flashCrntAddress]]
  | refused (index errno : UInt8) (params : Bytes)
      (h : packet.payload = 2 :: 4 :: index :: params) (hindex : index = 3 ∨ index = 4)
      (herr : errno ≠ 0) :
      DispatchCase s packet s [flashAnswer p packet.fromAddress index [errno]]
  | committed (params : Bytes) (hstage : s.flashStage ≠ 0)
      (haddr : 0x1f00 ≤ s.flashCrntAddress) (h : packet.payload = 2 :: 4 :: 4 :: params) :
      DispatchCase s packet { s with pages := commitPages s, flashStage := 0 }
        [flashAnswer p packet.fromAddress 4 [0]]

section Handlers

variable {s : Flash p} {packet : Packet} {req : RpcRequest} {params : Bytes}

/-- The request and the packet it came in. -/
structure SameRequest (packet : Packet) (req : RpcRequest) (index : UInt8)
    (params : Bytes) : Prop where
  payload : req.payload = 2 :: 4 :: index :: params
  samePayload : packet.payload = req.payload
  sameSender : packet.fromAddress = req.fromAddress
  ptr : req.procPtr = 3

theorem SameRequest.reply (h : SameRequest packet req index params) (bytes : Bytes) :
    ilReply p req bytes = flashAnswer p packet.fromAddress index bytes := by
  simp [ilReply, flashAnswer, h.payload, h.ptr, h.sameSender]

theorem SameRequest.packet_payload (h : SameRequest packet req index params) :
    packet.payload = 2 :: 4 :: index :: params := by
  rw [h.samePayload, h.payload]

theorem blfGetFlashStage_case (h : SameRequest packet req 0 params) :
    DispatchCase s packet (Flash.blfGetFlashStage req s).1 (Flash.blfGetFlashStage req s).2 := by
  unfold Flash.blfGetFlashStage
  rw [h.reply]
  exact .stage params h.packet_payload

theorem blfGetNextAddr_case (h : SameRequest packet req 2 params) :
    DispatchCase s packet (Flash.blfGetNextAddr req s).1 (Flash.blfGetNextAddr req s).2 := by
  unfold Flash.blfGetNextAddr
  rw [h.reply]
  exact .nextAddr params h.packet_payload

theorem blfStartFlash_case (h : SameRequest packet req 1 params) :
    DispatchCase s packet (Flash.blfStartFlash req s).1 (Flash.blfStartFlash req s).2 := by
  have hanswers : ∀ errno : UInt8, StartAnswers p packet.fromAddress errno
      ((if s.flashStage = 1 then [flashAnswer p packet.fromAddress 1 [EALREADY]] else []) ++
        [flashAnswer p packet.fromAddress 1 [errno]]) := by
    intro errno
    split
    · exact .inr rfl
    · exact .inl rfl
  simp only [Flash.blfStartFlash, h.reply]
  split
  next halloc => exact .start params h.packet_payload halloc _ (hanswers 0)
  next halloc =>
    exact .startFails params h.packet_payload (by simpa using halloc) _ (hanswers ENOMEM)

/-- `blf_push_code` takes the data at its address or refuses. -/
theorem blfPushCode_case (h : SameRequest packet req 3 params) :
    DispatchCase s packet (Flash.blfPushCode req s).1 (Flash.blfPushCode req s).2 := by
  have hrefused : ∀ errno : UInt8, errno ≠ 0 →
      DispatchCase s packet s [ilReply p req [errno]] := by
    intro errno herr
    rw [h.reply]
    exact .refused 3 errno params h.packet_payload (.inl rfl) herr
  have hdata : req.payload.drop req.procPtr = params := by rw [h.payload, h.ptr]; rfl
  simp only [Flash.blfPushCode, hdata]
  split
  · exact hrefused ENOTCONN (by decide)
  next hstage =>
    split
    · exact hrefused EBADMSG (by decide)
    next hsize =>
      split
      · exact hrefused EFAULT (by decide)
      next haddr =>
        split
        · exact hrefused ENXIO (by decide)
        next hmatch =>
          obtain ⟨a, b, data, rfl⟩ : ∃ a b data, params = a :: b :: data := by
            match params with
            | a :: b :: data => exact ⟨a, b, data, rfl⟩
            | [] | [_] => simp at hsize
          simp only [List.getD_cons_zero, List.getD_cons_succ, not_or, ne_eq,
            Decidable.not_not] at hmatch
          obtain ⟨rfl, rfl⟩ := hmatch
          rw [h.reply]
          apply DispatchCase.pushed data hstage (UInt16.not_lt.mp haddr) h.packet_payload
          rintro rfl
          simp at hsize

theorem commitFlash_case (h : SameRequest packet req 4 params) :
    DispatchCase s packet (Flash.commitFlash req s).1 (Flash.commitFlash req s).2 := by
  have hrefused : ∀ errno : UInt8, errno ≠ 0 →
      DispatchCase s packet s [ilReply p req [errno]] := by
    intro errno herr
    rw [h.reply]
    exact .refused 4 errno params h.packet_payload (.inr rfl) herr
  unfold Flash.commitFlash
  split
  · exact hrefused EBADFD (by decide)
  next hstage =>
    split
    · exact hrefused EFAULT (by decide)
    next haddr =>
      rw [h.reply]
      exact .committed params hstage (UInt16.not_lt.mp haddr) h.packet_payload

end Handlers

theorem exists_flash_path {l : Bytes} (h : l.take 2 = [2, 4]) :
    ∃ rest, l = 2 :: 4 :: rest := by
  refine ⟨l.drop 2, ?_⟩
  conv_lhs => rw [← List.take_append_drop 2 l, h]
  rfl

/-- The functions of 2:4. -/
theorem flash_index_cases (h : index.toNat < 5) :
    index = 0 ∨ index = 1 ∨ index = 2 ∨ index = 3 ∨ index = 4 := by
  simp only [← UInt8.toNat_inj, UInt8.reduceToNat]
  omega

theorem bootloaderFlashFunctions_none (h : ¬ index.toNat < 5) :
    (Flash.bootloaderFlashFunctions (p := p))[index.toNat]? = none :=
  List.getElem?_eq_none (by simpa [Flash.bootloaderFlashFunctions] using h)

/-- **What a request can do** to the boot loader. -/
theorem dispatch_case (s : Flash p) (packet : Packet) :
    DispatchCase s packet (s.dispatch packet).1 (s.dispatch packet).2 := by
  unfold Flash.dispatch
  split
  next h =>
    obtain ⟨-, -, hpath, hsize⟩ := h
    obtain ⟨rest, hpayload⟩ := exists_flash_path hpath
    unfold Flash.rpcBootloaderFlash dispatchFunctionChain
    cases rest with
    | nil =>
      simp only [hpayload, List.getElem?_cons_succ, List.getElem?_nil]
      apply DispatchCase.unknown
      · simp [hpayload]
      · simp [ilReply]
    | cons index params =>
      simp only [hpayload, List.getElem?_cons_succ, List.getElem?_cons_zero]
      have hsame : SameRequest packet
          { toAddress := packet.toAddress, fromAddress := packet.fromAddress,
            payload := 2 :: 4 :: index :: params, procPtr := 3,
            size_lt := hpayload ▸ hsize } index params :=
        ⟨rfl, hpayload, rfl, rfl⟩
      by_cases hlt : index.toNat < 5
      · rcases flash_index_cases hlt with rfl | rfl | rfl | rfl | rfl
        · exact blfGetFlashStage_case hsame
        · exact blfStartFlash_case hsame
        · exact blfGetNextAddr_case hsame
        · exact blfPushCode_case hsame
        · exact commitFlash_case hsame
      · rw [bootloaderFlashFunctions_none hlt]
        apply DispatchCase.unknown
        · intro i hi
          simp only [hpayload, List.getElem?_cons_succ, List.getElem?_cons_zero,
            Option.some.injEq] at hi
          subst hi
          omega
        · simp [ilReply]
  next => exact .ignored

end Cases

/-! ## The flash variables as a writer -/

section Writer

variable {p : Platform} (initial : ℕ → UInt8)

/-- The page buffer, the address and the program memory of a device. -/
def writer (s : Flash p) : PagedWriter UInt8 p.pageSize :=
  { position := s.flashCrntAddress.toNat
    buffer := s.flashTmp
    memory := programMemory initial s.pages }

theorem programMemory_concat (pages : List PageWrite) (w : PageWrite) :
    programMemory initial (pages ++ [w]) =
      overlay (programMemory initial pages) w.page w.data := by
  simp [programMemory]

theorem toNat_and_pageBits (p : Platform) (x : UInt16) :
    (x &&& Flash.pageBits p).toNat = x.toNat % p.pageSize := by
  obtain ⟨k, hk, hp⟩ := p.isPow
  have hbits : (Flash.pageBits p).toNat = 2 ^ k - 1 := by
    unfold Flash.pageBits
    rw [hp]
    interval_cases k <;> rfl
  rw [UInt16.toNat_and, hbits, Nat.and_two_pow_sub_one_eq_mod, hp]

/-- Masking with a value and with its complement splits a number. -/
theorem toNat_and_not_add (x m : UInt16) :
    (x &&& ~~~ m).toNat + (x &&& m).toNat = x.toNat := by
  have hdisjoint : (x.toBitVec &&& ~~~ m.toBitVec) &&& (x.toBitVec &&& m.toBitVec) = 0#16 := by
    ext i hi
    cases hm : m.toBitVec[i] <;> simp [hm]
  have hunion : (x.toBitVec &&& ~~~ m.toBitVec) ||| (x.toBitVec &&& m.toBitVec) = x.toBitVec := by
    ext i hi
    cases hm : m.toBitVec[i] <;> simp [hm]
  have hadd := BitVec.toNat_add_of_and_eq_zero hdisjoint
  rw [BitVec.add_eq_or_of_and_eq_zero _ _ hdisjoint, hunion] at hadd
  exact hadd.symm

theorem toNat_and_not_pageBits (p : Platform) (x : UInt16) :
    (x &&& ~~~ Flash.pageBits p).toNat = x.toNat - x.toNat % p.pageSize := by
  have hsplit := toNat_and_not_add x (Flash.pageBits p)
  rw [toNat_and_pageBits] at hsplit
  omega

theorem toNat_succ {x : UInt16} (h : x.toNat + 1 < 2 ^ 16) : (x + 1).toNat = x.toNat + 1 := by
  exact Nat.mod_eq_of_lt h

/-- One round of `fill_flash` puts its byte into the writer. -/
theorem fillByte_writer (s : Flash p) (b : UInt8)
    (h : s.flashCrntAddress.toNat + 1 < 2 ^ 16) :
    writer initial (s.fillByte b) = (writer initial s).put b := by
  have hsucc := toNat_succ h
  have hpred : s.flashCrntAddress + 1 - 1 = s.flashCrntAddress :=
    UInt16.add_sub_cancel s.flashCrntAddress 1
  have hmemory : programMemory initial (s.fillByte b).pages =
      ((writer initial s).put b).memory := by
    unfold Flash.fillByte PagedWriter.put writer
    simp only [hsucc, hpred, toNat_and_not_pageBits]
    split
    · exact programMemory_concat initial _ _
    · rfl
  unfold writer at hmemory ⊢
  rw [hmemory]
  simp only [PagedWriter.put, Flash.fillByte, hsucc]

/-- `fill_flash` puts its bytes into the writer, as long as the address stays in range. -/
theorem fillFlash_writer (s : Flash p) (buf : Bytes)
    (h : s.flashCrntAddress.toNat + buf.length < 2 ^ 16) :
    writer initial (s.fillFlash buf) = (writer initial s).putAll buf := by
  induction buf generalizing s with
  | nil => rfl
  | cons b buf ih =>
    rw [List.length_cons] at h
    have hlt : s.flashCrntAddress.toNat + 1 < 2 ^ 16 := by omega
    have haddr : (s.fillByte b).flashCrntAddress.toNat = s.flashCrntAddress.toNat + 1 :=
      toNat_succ hlt
    show writer initial ((s.fillByte b).fillFlash buf) =
      ((writer initial s).put b).putAll buf
    rw [ih (s.fillByte b) (by omega), fillByte_writer initial s b hlt]

theorem toNat_fillFlash (s : Flash p) (buf : Bytes)
    (h : s.flashCrntAddress.toNat + buf.length < 2 ^ 16) :
    (s.fillFlash buf).flashCrntAddress.toNat = s.flashCrntAddress.toNat + buf.length := by
  have hpos := congrArg PagedWriter.position (fillFlash_writer (fun _ => 0) s buf h)
  rw [PagedWriter.position_putAll] at hpos
  exact hpos

/-- `commit_flash` leaves what the writer contains in the memory. -/
theorem commitPages_memory (s : Flash p) :
    programMemory initial (commitPages s) = (writer initial s).contents := by
  unfold commitPages
  split
  · rw [programMemory_concat, toNat_and_not_pageBits, toNat_and_pageBits]
    rfl
  next h =>
    rw [PagedWriter.contents_of_aligned (Decidable.not_not.mp h)]
    rfl

end Writer

/-! ## The image in the memory -/

section Image

variable {p : Platform} {initial : ℕ → UInt8}

/-- What holds after any requests. -/
structure ImageInv (initial : ℕ → UInt8) (s : Served p) : Prop where
  allocated : s.flash.flashStage ≠ 0 → p.allocates = true
  reach : s.flash.flashCrntAddress.toNat ≤ s.highest
  length : s.flash.flashStage ≠ 0 →
    p.appStartAddress + (imageOf s.events).length = s.flash.flashCrntAddress.toNat
  holds : s.flash.flashStage ≠ 0 → ∀ a x, PlacedAt p.appStartAddress (imageOf s.events) a x →
    (writer initial s.flash).contents a = x
  outside : ∀ a, a < p.appStartAddress ∨ s.highest ≤ a → s.memory initial a = initial a
  committed : s.events.getLast? = some .committed →
    readRange (s.memory initial) p.appStartAddress s.flash.flashCrntAddress.toNat =
      imageOf s.events

/-- A request that leaves the device and the image alone. -/
theorem ImageInv.same {s : Served p} (h : ImageInv initial s) :
    ImageInv initial
      { flash := s.flash
        highest := max s.highest s.flash.flashCrntAddress.toNat
        events := s.events ++ [.other] } := by
  have himage : imageOf (s.events ++ [.other]) = imageOf s.events := imageOf_concat s.events .other
  have hmax : max s.highest s.flash.flashCrntAddress.toNat = s.highest :=
    Nat.max_eq_left h.reach
  refine ⟨h.allocated, ?_, ?_, ?_, ?_, by simp⟩
  · exact Nat.le_max_right _ _
  · rw [himage]
    exact h.length
  · rw [himage]
    exact h.holds
  · rw [hmax]
    exact h.outside

/-- A start empties the image: it is at a page boundary, so nothing is collected. -/
theorem ImageInv.started {s : Served p} (h : ImageInv initial s) (halloc : p.allocates = true)
    (hrange : p.appStartAddress ≤ 0xFFFF) :
    ImageInv initial
      { flash := startedFlash s.flash
        highest := max s.highest (startedFlash s.flash).flashCrntAddress.toNat
        events := s.events ++ [.started] } := by
  have himage : imageOf (s.events ++ [.started]) = [] := imageOf_concat s.events .started
  have haddr : (startedFlash s.flash).flashCrntAddress.toNat = p.appStartAddress :=
    Nat.mod_eq_of_lt (by omega)
  refine ⟨fun _ => halloc, Nat.le_max_right _ _, fun _ => ?_, fun _ => ?_, ?_, by simp⟩
  · rw [himage, haddr]
    rfl
  · rw [himage]
    intro a x hx
    exact absurd hx (placedAt_nil _ _ _)
  · intro a ha
    refine h.outside a ?_
    dsimp only at ha
    omega

theorem ImageInv.startFails {s : Served p} (h : ImageInv initial s)
    (halloc : p.allocates = false) :
    ImageInv initial
      { flash := s.flash
        highest := max s.highest s.flash.flashCrntAddress.toNat
        events := s.events ++ [.started] } := by
  have hstage : ¬ s.flash.flashStage ≠ 0 := by
    intro hne
    rw [h.allocated hne] at halloc
    cases halloc
  refine ⟨fun hne => absurd hne hstage, Nat.le_max_right _ _, fun hne => absurd hne hstage,
    fun hne => absurd hne hstage, ?_, by simp⟩
  intro a ha
  refine h.outside a ?_
  dsimp only at ha
  omega

/-- An accepted push appends its data. -/
theorem ImageInv.pushed {s : Served p} (h : ImageInv initial s) (data : Bytes)
    (hstage : s.flash.flashStage ≠ 0)
    (hrange : s.flash.flashCrntAddress.toNat + data.length ≤ 0xFFFF) :
    ImageInv initial
      { flash := s.flash.fillFlash data
        highest := max s.highest (s.flash.fillFlash data).flashCrntAddress.toNat
        events := s.events ++ [.accepted data] } := by
  have himage : imageOf (s.events ++ [.accepted data]) = imageOf s.events ++ data :=
    imageOf_concat s.events (.accepted data)
  have hlt : s.flash.flashCrntAddress.toNat + data.length < 2 ^ 16 := by omega
  have haddr := toNat_fillFlash s.flash data hlt
  have hwriter := fillFlash_writer initial s.flash data hlt
  have hlength := h.length hstage
  refine ⟨fun _ => h.allocated hstage, Nat.le_max_right _ _, fun _ => ?_, fun _ => ?_, ?_,
    by simp⟩
  · rw [himage, haddr, List.length_append]
    omega
  · rw [himage]
    intro a x hx
    show (writer initial (s.flash.fillFlash data)).contents a = x
    rw [hwriter, PagedWriter.contents_putAll]
    rcases (placedAt_append _ _ _ _ _).mp hx with hold | hnew
    · have hbounds := hold.bounds
      rw [overlay_of_outside (.inl (by show a < s.flash.flashCrntAddress.toNat; omega))]
      exact h.holds hstage a x hold
    · rw [hlength] at hnew
      exact overlay_of_placedAt hnew
  · intro a ha
    have hmemory := congrArg PagedWriter.memory hwriter
    dsimp only at ha
    show programMemory initial (s.flash.fillFlash data).pages a = initial a
    have hkeep : ((writer initial s.flash).putAll data).memory a =
        (writer initial s.flash).memory a := by
      apply PagedWriter.memory_putAll_of_outside _ _ p.aligned
      · show p.appStartAddress ≤ s.flash.flashCrntAddress.toNat
        omega
      · show a < p.appStartAddress ∨ s.flash.flashCrntAddress.toNat + data.length ≤ a
        omega
    rw [← hmemory] at hkeep
    exact hkeep.trans (h.outside a (by omega))

/-- A commit leaves the image in the memory. -/
theorem ImageInv.commit {s : Served p} (h : ImageInv initial s)
    (hstage : s.flash.flashStage ≠ 0) :
    ImageInv initial
      { flash := { s.flash with pages := commitPages s.flash, flashStage := 0 }
        highest := max s.highest s.flash.flashCrntAddress.toNat
        events := s.events ++ [.committed] } := by
  have himage : imageOf (s.events ++ [.committed]) = imageOf s.events :=
    imageOf_concat s.events .committed
  have hmemory := commitPages_memory initial s.flash
  have hlength := h.length hstage
  refine ⟨fun hne => absurd rfl hne, Nat.le_max_right _ _, fun hne => absurd rfl hne,
    fun hne => absurd rfl hne, ?_, fun _ => ?_⟩
  · intro a ha
    dsimp only at ha
    show programMemory initial (commitPages s.flash) a = initial a
    rw [hmemory, ← PagedWriter.memory_flush]
    have hkeep : (writer initial s.flash).flush.memory a = (writer initial s.flash).memory a := by
      apply PagedWriter.memory_flush_of_outside _ p.aligned
      · show p.appStartAddress ≤ s.flash.flashCrntAddress.toNat
        omega
      · show a < p.appStartAddress ∨ s.flash.flashCrntAddress.toNat ≤ a
        omega
    exact hkeep.trans (h.outside a (by omega))
  · show readRange (programMemory initial (commitPages s.flash)) p.appStartAddress
      s.flash.flashCrntAddress.toNat = _
    rw [himage, hmemory, ← hlength, readRange_eq_iff]
    exact h.holds hstage

theorem eventOf_unknown (answers : List Packet)
    (h : ∀ index, packet.payload[2]? = some index → 5 ≤ index.toNat) :
    eventOf packet answers = .other := by
  have hno : ∀ index : UInt8, index.toNat < 5 →
      ∀ params, packet.payload ≠ 2 :: 4 :: index :: params := by
    intro index hlt params hpayload
    have := h index (by simp [hpayload])
    omega
  unfold eventOf
  split
  next params hpayload => exact absurd hpayload (hno 1 (by decide) params)
  next a b data hpayload => exact absurd hpayload (hno 3 (by decide) (a :: b :: data))
  next params hpayload => exact absurd hpayload (hno 4 (by decide) params)
  next => rfl

theorem eventOf_start {params : Bytes} {to' : ℤ} {errno : UInt8} {answers : List Packet}
    (hp : packet.payload = 2 :: 4 :: 1 :: params) (h : StartAnswers p to' errno answers) :
    eventOf packet answers = .started := by
  rcases h with rfl | rfl <;> simp [eventOf, hp]

/-- **One request.**  It keeps the image where it belongs, as long as the address stays in
range. -/
theorem ImageInv.step {s s' : Served p} (h : ImageInv initial s) (hrange : StaysInRange s packet)
    (hserve : serve s packet = some s') : ImageInv initial s' := by
  have hcase := dispatch_case s.flash packet
  unfold serve at hserve
  unfold StaysInRange at hrange
  generalize s.flash.dispatch packet = r at hserve hrange hcase
  obtain ⟨flash', answers⟩ := r
  cases hserve
  cases hcase with
  | ignored =>
    have hevent : eventOf packet [] = .other := by
      unfold eventOf answeredZero
      split <;> rfl
    rw [hevent]
    exact h.same
  | unknown answer hindex =>
    rw [eventOf_unknown _ hindex]
    exact h.same
  | stage params hp | nextAddr params hp =>
    have hevent : ∀ answers, eventOf packet answers = .other := by simp [eventOf, hp]
    rw [hevent]
    exact h.same
  | start params hp halloc answers hanswers =>
    have hevent := eventOf_start hp hanswers
    simp only [hevent] at hrange ⊢
    exact h.started halloc hrange
  | startFails params hp halloc answers hanswers =>
    have hevent := eventOf_start hp hanswers
    simp only [hevent]
    exact h.startFails halloc
  | pushed data hstage haddr hp hdata =>
    have hevent : ∀ rest, eventOf packet
        [flashAnswer p packet.fromAddress 3 (0 :: rest)] = .accepted data := by
      simp [eventOf, hp, answeredZero, flashAnswer]
    simp only [hevent] at hrange ⊢
    exact h.pushed data hstage hrange
  | refused index errno params hp hindex herr =>
    have hzero : answeredZero [flashAnswer p packet.fromAddress index [errno]] = false := by
      simp [answeredZero, flashAnswer, herr]
    have hevent : eventOf packet [flashAnswer p packet.fromAddress index [errno]] = .other := by
      unfold eventOf
      rcases hindex with rfl | rfl <;> split <;> simp_all
    rw [hevent]
    exact h.same
  | committed params hstage haddr hp =>
    have hevent : eventOf packet [flashAnswer p packet.fromAddress 4 [0]] = .committed := by
      simp [eventOf, hp, answeredZero, flashAnswer]
    rw [hevent]
    exact h.commit hstage

theorem imageInv_powerOn (initial : ℕ → UInt8) (tmp : Vector UInt8 p.pageSize) (appRun : Bool) :
    ImageInv initial (Served.powerOn tmp appRun) :=
  ⟨fun h => absurd rfl h, Nat.le_refl 0, fun h => absurd rfl h, fun h => absurd rfl h,
    fun _ _ => rfl, fun h => by cases h⟩

/-- **A committed image is in the memory.**  After any requests of 2:4 with addresses up to
`0xFFFF`, the last of them a commit that was answered with 0: the program memory from
`APP_START_ADDRESS` up to `flash_crnt_address` is the data of the pushes accepted since the
last start request, and the memory below and from the highest address on is as it was.
SOURCE: ub_bootloader.c:236-256, 265-352 -/
theorem commit_writes_image (p : Platform) (initial : ℕ → UInt8)
    (tmp : Vector UInt8 p.pageSize) (appRun : Bool) (packets : List Packet) (s : Served p)
    (hrun : run serve (Served.powerOn tmp appRun) packets = some s)
    (hrange : Along serve StaysInRange (Served.powerOn tmp appRun) packets)
    (hcommit : s.events.getLast? = some .committed) :
    readRange (s.memory initial) p.appStartAddress s.flash.flashCrntAddress.toNat =
        imageOf s.events ∧
      ∀ a, a < p.appStartAddress ∨ s.highest ≤ a → s.memory initial a = initial a := by
  have hinv : ImageInv initial s :=
    run_invariant (fun _ _ _ hs hr hstep => hs.step hr hstep)
      (imageInv_powerOn initial tmp appRun) hrange hrun
  exact ⟨hinv.committed hcommit, hinv.outside⟩

/-- A device at address 2 with pages of four bytes. -/
def smallPlatform : Platform :=
  { pageSize := 4
    appStartAddress := 0x2000
    busAddress := 2
    allocates := true
    isPow := ⟨2, by decide, rfl⟩
    aligned := by decide
    start_ge := by decide }

/-- Six bytes in two pushes, the second sent twice, over a page boundary. -/
theorem commit_writes_image_six_bytes :
    ∃ s : Served smallPlatform, run serve (Served.powerOn (Vector.replicate 4 0) true)
        [⟨2, 1, [2, 4, 1]⟩, ⟨2, 1, [2, 4, 3, 0x20, 0, 1, 2, 3]⟩,
          ⟨2, 1, [2, 4, 3, 0x20, 3, 4, 5, 6]⟩, ⟨2, 1, [2, 4, 3, 0x20, 3, 4, 5, 6]⟩,
          ⟨2, 1, [2, 4, 4]⟩] = some s ∧
      readRange (s.memory fun _ => 0xff) 0x2000 0x2006 = [1, 2, 3, 4, 5, 6] ∧
      s.memory (fun _ => 0xff) 0x1fff = 0xff ∧ s.memory (fun _ => 0xff) 0x2006 = 0xff := by
  refine exists_eq_some (Q := fun s => s.events.getLast? = some .committed ∧
    imageOf s.events = [1, 2, 3, 4, 5, 6] ∧ s.flash.flashCrntAddress.toNat = 0x2006 ∧
    s.highest = 0x2006) (by decide +kernel) ?_
  rintro s hrun ⟨hlast, himage, haddr, hhighest⟩
  obtain ⟨hread, hout⟩ := commit_writes_image smallPlatform (fun _ => 0xff)
    (Vector.replicate 4 0) true _ s hrun (by decide +kernel) hlast
  rw [himage, haddr] at hread
  rw [hhighest] at hout
  exact ⟨hread, hout 0x1fff (by decide), hout 0x2006 (by decide)⟩

end Image

end Uartbus.Analysis
