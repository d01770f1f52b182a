import Uartbus.Analysis.UploadPhases
import Uartbus.Lib.Trace

/-!
# An upload that succeeds has programmed the code

The phases of an upload are four.  In the first two the device may still start over; once the
address of 2:4:2 is known every request of a start has been served, since the link keeps the
order.  From then on the device's address only grows, by pieces of the code that fit where it
stands: an old answer tells an address that it has passed.  When the uploader knows the end of
the code, the device stands there and takes no more pushes, and a commit writes what is left.
-/

set_option autoImplicit false

namespace Uartbus.Analysis

open Lib Model

variable {answers rest : List Packet} {addr start : UInt16} {packet : Packet}

/-! ## What the answers of a device tell -/

section Answers

variable {p : Platform} {k : Knowledge} {to' : ℤ} {index : UInt8} {bytes : Bytes}

theorem answerOk_other (h : index = 0 ∨ index = 1) :
    AnswerOk k (flashAnswer p to' index bytes).payload := by
  constructor <;> intro rest hrest <;> rcases h with rfl | rfl <;> cases hrest

theorem answerOk_refused {errno : UInt8} (hindex : index = 3 ∨ index = 4) (herr : errno ≠ 0) :
    AnswerOk k (flashAnswer p to' index [errno]).payload := by
  constructor <;> intro rest hrest <;> rcases hindex with rfl | rfl <;> cases hrest <;>
    exact absurd rfl herr

theorem answerOk_next {v : UInt16} (h : k.addresses v) :
    AnswerOk k (flashAnswer p to' 2 [highByte v, lowByte v]).payload := by
  constructor <;> intro rest hrest <;> cases hrest
  exact ⟨v, rfl, h⟩

theorem answerOk_pushed {v : UInt16} (h : k.addresses v) :
    AnswerOk k (flashAnswer p to' 3 [0, highByte v, lowByte v]).payload := by
  constructor <;> intro rest hrest <;> cases hrest
  exact ⟨v, rfl, h⟩

theorem answerOk_committed (h : k.complete) :
    AnswerOk k (flashAnswer p to' 4 [0]).payload := by
  constructor <;> intro rest hrest <;> cases hrest
  exact h

end Answers

/-! ## What the requests of an upload do -/

section Requests

variable {p : Platform} {device device' : Flash p} {packet : Packet} {answers : List Packet}

/-- The answers tell nothing that is not known. -/
def AllOk (k : Knowledge) (answers : List Packet) : Prop :=
  ∀ answer ∈ answers, AnswerOk k answer.payload

theorem allOk_singleton {k : Knowledge} {answer : Packet} (h : AnswerOk k answer.payload) :
    AllOk k [answer] := by
  intro a ha
  rw [List.mem_singleton.mp ha]
  exact h

/-- A request for the stage or a start. -/
def IsEarly (payload : Bytes) : Prop := payload = [2, 4, 0] ∨ payload = [2, 4, 1]

/-- An answer to an early request tells nothing. -/
theorem DispatchCase.early (h : DispatchCase device packet device' answers)
    (hp : IsEarly packet.payload) (k : Knowledge) : AllOk k answers := by
  have hanswers : ∀ to' errno, StartAnswers p to' errno answers → AllOk k answers := by
    rintro to' errno (rfl | rfl) a ha
    · rw [List.mem_singleton.mp ha]
      exact answerOk_other (.inr rfl)
    · rcases List.mem_pair.mp ha with rfl | rfl <;> exact answerOk_other (.inr rfl)
  cases h with
  | ignored => exact List.forall_mem_nil _
  | unknown answer hindex => rcases hp with hp | hp <;> simp [hp] at hindex
  | stage => exact allOk_singleton (answerOk_other (.inl rfl))
  | start params h halloc answers hstart => exact hanswers _ _ hstart
  | startFails params h halloc answers hstart => exact hanswers _ _ hstart
  | nextAddr params h => rcases hp with hp | hp <;> simp [hp] at h
  | pushed data hstage haddr h => rcases hp with hp | hp <;> simp [hp] at h
  | refused index errno params h hindex herr =>
    exact allOk_singleton (answerOk_refused hindex herr)
  | committed params hstage haddr h => rcases hp with hp | hp <;> simp [hp] at h

/-- An answer to a request for the address tells the address. -/
theorem DispatchCase.next (h : DispatchCase device packet device' answers)
    (hp : packet.payload = [2, 4, 2]) :
    device' = device ∧ ∀ k : Knowledge, k.addresses device.flashCrntAddress → AllOk k answers := by
  cases h with
  | ignored => exact ⟨rfl, fun k _ a ha => absurd ha List.not_mem_nil⟩
  | unknown answer hindex => simp [hp] at hindex
  | stage params h | start params h | startFails params h => simp [hp] at h
  | nextAddr params h => exact ⟨rfl, fun k hk => allOk_singleton (answerOk_next hk)⟩
  | pushed data hstage haddr h => simp [hp] at h
  | refused index errno params h hindex herr =>
    exact ⟨rfl, fun k _ => allOk_singleton (answerOk_refused hindex herr)⟩
  | committed params hstage haddr h => simp [hp] at h

/-- A push is taken at the device's address only. -/
theorem DispatchCase.push (h : DispatchCase device packet device' answers) {data : Bytes}
    (hp : packet.payload = 2 :: 4 :: 3 :: highByte addr :: lowByte addr :: data) :
    (device' = device ∧ ∀ k, AllOk k answers) ∨
      (addr = device.flashCrntAddress ∧ device' = device.fillFlash data ∧
        ∀ k : Knowledge, k.addresses device'.flashCrntAddress → AllOk k answers) := by
  cases h with
  | ignored => exact .inl ⟨rfl, fun k a ha => absurd ha List.not_mem_nil⟩
  | unknown answer hindex => simp [hp] at hindex
  | stage params h | start params h | startFails params h | nextAddr params h => simp [hp] at h
  | pushed data' hstage haddr h =>
    rw [hp] at h
    simp only [List.cons.injEq, true_and] at h
    obtain ⟨hhigh, hlow, rfl⟩ := h
    exact .inr ⟨eq_of_bytes hhigh hlow, rfl, fun k hk => allOk_singleton (answerOk_pushed hk)⟩
  | refused index errno params h hindex herr =>
    exact .inl ⟨rfl, fun k => allOk_singleton (answerOk_refused hindex herr)⟩
  | committed params hstage haddr h => simp [hp] at h

/-- A commit writes the rest, or the device is as before. -/
theorem DispatchCase.commit (h : DispatchCase device packet device' answers)
    (hp : packet.payload = [2, 4, 4]) :
    (device' = device ∧ ∀ k, AllOk k answers) ∨
      (device' = { device with pages := commitPages device, flashStage := 0 } ∧
        ∀ k : Knowledge, k.complete → AllOk k answers) := by
  cases h with
  | ignored => exact .inl ⟨rfl, fun k a ha => absurd ha List.not_mem_nil⟩
  | unknown answer hindex => simp [hp] at hindex
  | stage params h | start params h | startFails params h | nextAddr params h => simp [hp] at h
  | pushed data hstage haddr h => simp [hp] at h
  | refused index errno params h hindex herr =>
    exact .inl ⟨rfl, fun k => allOk_singleton (answerOk_refused hindex herr)⟩
  | committed params hstage haddr h =>
    exact .inr ⟨rfl, fun k hk => allOk_singleton (answerOk_committed hk)⟩

end Requests

/-! ## Before the address is known -/

section Locating

variable {p : Platform}

/-- The stage and the start: nothing is known. -/
def startPhase (p : Platform) : Phase p where
  mayAsk r := IsEarly r.payload
  ground _ requests := ∀ q ∈ requests, IsEarly q.payload
  known _ _ := Knowledge.nothing
  result _ := Started
  lose hsub h := ⟨fun q hq => h q (hsub.subset hq), le_rfl⟩
  send hr hpayload h := ⟨forall_mem_concat.mpr ⟨h, hpayload ▸ hr⟩, le_rfl⟩
  deliver hcase h :=
    ⟨fun q hq => h q (List.mem_cons_of_mem _ hq), le_rfl, hcase.early (h _ List.mem_cons_self) _⟩

/-- The requests of the first address behind those of the stage and the start. -/
def LocateQueue (requests : List Packet) : Prop :=
  ∃ early late, requests = early ++ late ∧ (∀ q ∈ early, IsEarly q.payload) ∧
    ∀ q ∈ late, q.payload = [2, 4, 2]

theorem LocateQueue.sublist {requests : List Packet} (h : LocateQueue requests)
    (hsub : rest.Sublist requests) : LocateQueue rest := by
  obtain ⟨early, late, rfl, hearly, hlate⟩ := h
  obtain ⟨e, l, rfl, he, hl⟩ := List.sublist_append_iff.mp hsub
  exact ⟨e, l, rfl, fun q hq => hearly q (he.subset hq), fun q hq => hlate q (hl.subset hq)⟩

/-- What is known when the first address is asked for.  An answer is about the present address,
once no start is in flight. -/
def locateKnown (device : Flash p) (requests : List Packet) : Knowledge where
  addresses v := v = device.flashCrntAddress ∧ ∀ q ∈ requests, q.payload = [2, 4, 2]
  complete := False

theorem not_isEarly_next {payload : Bytes} (h : IsEarly payload) : payload ≠ [2, 4, 2] := by
  rcases h with rfl | rfl <;> decide

/-- A request for the first address is delivered, or an earlier one. -/
theorem locate_deliver {device device' : Flash p}
    (hcase : DispatchCase device packet device' answers) (h : LocateQueue (packet :: rest)) :
    LocateQueue rest ∧ locateKnown device (packet :: rest) ≤ locateKnown device' rest ∧
      AllOk (locateKnown device' rest) answers := by
  refine ⟨h.sublist (List.sublist_cons_self packet rest), ?_⟩
  obtain ⟨early, late, hqueue, hearly, hlate⟩ := h
  cases early with
  | nil =>
    subst hqueue
    obtain ⟨rfl, hok⟩ := hcase.next (hlate packet List.mem_cons_self)
    have hrest : ∀ q ∈ rest, q.payload = [2, 4, 2] :=
      fun q hq => hlate q (List.mem_cons_of_mem packet hq)
    exact ⟨⟨fun v hv => ⟨hv.1, hrest⟩, fun hc => hc⟩, hok _ ⟨rfl, hrest⟩⟩
  | cons first early =>
    -- a start may move the address, but then nothing is known yet
    cases hqueue
    have hfirst := hearly packet List.mem_cons_self
    refine ⟨⟨fun v hv => ?_, fun hc => hc⟩, hcase.early hfirst _⟩
    exact absurd (hv.2 packet List.mem_cons_self) (not_isEarly_next hfirst)

/-- The first address. -/
def locatePhase (p : Platform) (code : CodeSegment) : Phase p where
  mayAsk r := r.payload = [2, 4, 2]
  ground _ := LocateQueue
  known := locateKnown
  result := Located code
  lose hsub h :=
    ⟨h.sublist hsub, fun _ hv => ⟨hv.1, fun q hq => hv.2 q (hsub.subset hq)⟩, fun hc => hc⟩
  send {_ _ packet r} hr hpayload h := by
    have hnew : ∀ q ∈ [packet], q.payload = [2, 4, 2] := by
      intro q hq
      rw [List.mem_singleton.mp hq, hpayload]
      exact hr
    obtain ⟨early, late, rfl, hearly, hlate⟩ := h
    refine ⟨⟨early, late ++ [packet], List.append_assoc _ _ _, hearly, fun q hq => ?_⟩,
      fun v hv => ⟨hv.1, fun q hq => ?_⟩, fun hc => hc⟩
    · exact (List.mem_append.mp hq).elim (hlate q) (hnew q)
    · exact (List.mem_append.mp hq).elim (hv.2 q) (hnew q)
  deliver := locate_deliver

end Locating

/-! ## The code in the device -/

section Pushing

variable {p : Platform} {initial : ℕ → UInt8} {code : CodeSegment} {device : Flash p}

/-- The end of the code is an address. -/
def Fits (code : CodeSegment) : Prop := code.codeEnd ≤ 0xFFFF

/-- The code is where it belongs up to the device's address, in the program memory or still in
the page buffer. -/
structure Held (initial : ℕ → UInt8) (code : CodeSegment) (device : Flash p) : Prop where
  start_le : code.startAddress ≤ device.flashCrntAddress.toNat
  le_end : device.flashCrntAddress.toNat ≤ code.codeEnd
  holds : ∀ a x, PlacedAt code.startAddress code.data a x →
    a < device.flashCrntAddress.toNat → (writer initial device).contents a = x

/-- The device at the start of the code holds nothing of it yet. -/
theorem held_of_start (h : device.flashCrntAddress.toNat = code.startAddress) :
    Held initial code device where
  start_le := h.ge
  le_end := by
    rw [h]
    exact Nat.le_add_right _ _
  holds a x hx hlt := by
    have := hx.bounds
    omega

theorem length_getCodePiece (code : CodeSegment) (offset length : ℕ) :
    (code.getCodePiece offset length).length = min code.data.length (offset + length) - offset := by
  unfold CodeSegment.getCodePiece
  rw [List.length_take, List.length_drop]
  omega

/-- The code at the addresses of a piece is the piece. -/
theorem placedAt_getCodePiece {addr length a : ℕ} {x : UInt8}
    (hx : PlacedAt code.startAddress code.data a x) (hstart : code.startAddress ≤ addr)
    (hle : addr ≤ a)
    (hlt : a < addr + (code.getCodePiece (addr - code.startAddress) length).length) :
    PlacedAt addr (code.getCodePiece (addr - code.startAddress) length) a x := by
  rw [length_getCodePiece] at hlt
  have hindex : addr - code.startAddress + (a - addr) = a - code.startAddress := by omega
  refine ⟨hle, ?_⟩
  unfold CodeSegment.getCodePiece
  rw [List.getElem?_take_of_lt (by omega), List.getElem?_drop, hindex]
  exact hx.2

/-- The device takes the piece at its address. -/
theorem Held.push (h : Held initial code device) (hfits : Fits code) {piece : Bytes}
    (hpiece : piece = code.getCodePiece
      (device.flashCrntAddress.toNat - code.startAddress) blockSize) :
    Held initial code (device.fillFlash piece) ∧
      device.flashCrntAddress.toNat ≤ (device.fillFlash piece).flashCrntAddress.toNat := by
  have hstart := h.start_le
  have hend := h.le_end
  have hlength : device.flashCrntAddress.toNat + piece.length ≤ code.codeEnd := by
    rw [hpiece, length_getCodePiece]
    unfold CodeSegment.codeEnd at hend ⊢
    omega
  unfold Fits at hfits
  have hrange : device.flashCrntAddress.toNat + piece.length < 2 ^ 16 := by omega
  have haddr := toNat_fillFlash device piece hrange
  refine ⟨⟨by omega, by omega, fun a x hx hlt => ?_⟩, by omega⟩
  rw [haddr] at hlt
  rw [fillFlash_writer initial device piece hrange, PagedWriter.contents_putAll]
  change overlay (writer initial device).contents device.flashCrntAddress.toNat piece a = x
  rcases Nat.lt_or_ge a device.flashCrntAddress.toNat with hold | hnew
  · rw [overlay_of_outside (.inl hold)]
    exact h.holds a x hx hold
  · apply overlay_of_placedAt
    rw [hpiece] at hlt ⊢
    exact placedAt_getCodePiece hx hstart hnew hlt

/-- A push or a request for the address. -/
def IsPush (code : CodeSegment) (payload : Bytes) : Prop :=
  payload = [2, 4, 2] ∨ IsPiece code payload

/-- What is known during the pushes: addresses that the device has reached. -/
def pushKnown (code : CodeSegment) (device : Flash p) : Knowledge where
  addresses v := Fits code →
    code.startAddress ≤ v.toNat ∧ v.toNat ≤ device.flashCrntAddress.toNat
  complete := False

/-- A push or a request for the address is delivered. -/
theorem push_deliver {device' : Flash p} (hcase : DispatchCase device packet device' answers)
    (hp : IsPush code packet.payload) (h : Fits code → Held initial code device) :
    (Fits code → Held initial code device') ∧ pushKnown code device ≤ pushKnown code device' ∧
      AllOk (pushKnown code device') answers := by
  have hcrnt : ∀ {d : Flash p}, (Fits code → Held initial code d) →
      (pushKnown code d).addresses d.flashCrntAddress :=
    fun hd hfits => ⟨(hd hfits).start_le, Nat.le_refl _⟩
  rcases hp with hnext | ⟨addr, hstart, hend, hpiece⟩
  · obtain ⟨rfl, hok⟩ := hcase.next hnext
    exact ⟨h, le_rfl, hok _ (hcrnt h)⟩
  · rcases hcase.push hpiece with ⟨rfl, hok⟩ | ⟨rfl, hdevice, hok⟩
    · exact ⟨h, le_rfl, hok _⟩
    · have hpush := fun hfits : Fits code => (h hfits).push hfits rfl
      rw [← hdevice] at hpush
      have hheld := fun hfits => (hpush hfits).1
      refine ⟨hheld, ⟨fun v hv hfits => ?_, fun hc => hc⟩, hok _ (hcrnt hheld)⟩
      exact ⟨(hv hfits).1, (hv hfits).2.trans (hpush hfits).2⟩

/-- The loop of `push_code`. -/
def pushPhase (p : Platform) (initial : ℕ → UInt8) (code : CodeSegment) : Phase p where
  mayAsk r := IsPush code r.payload
  ground device requests :=
    (∀ q ∈ requests, IsPush code q.payload) ∧ (Fits code → Held initial code device)
  known device _ := pushKnown code device
  result := Pushed code
  lose hsub h := ⟨⟨fun q hq => h.1 q (hsub.subset hq), h.2⟩, le_rfl⟩
  send hr hpayload h := ⟨⟨forall_mem_concat.mpr ⟨h.1, hpayload ▸ hr⟩, h.2⟩, le_rfl⟩
  deliver hcase h := by
    obtain ⟨hheld, hk, hok⟩ := push_deliver hcase (h.1 _ List.mem_cons_self) h.2
    exact ⟨⟨fun q hq => h.1 q (List.mem_cons_of_mem _ hq), hheld⟩, hk, hok⟩

end Pushing

/-! ## The commit -/

section Committing

variable {p : Platform} {initial : ℕ → UInt8} {code : CodeSegment} {device : Flash p}

/-- The program memory holds the code. -/
def Programmed (initial : ℕ → UInt8) (code : CodeSegment) (device : Flash p) : Prop :=
  ∀ a x, PlacedAt code.startAddress code.data a x → programMemory initial device.pages a = x

theorem writer_commit (initial : ℕ → UInt8) (device : Flash p) :
    writer initial { device with pages := commitPages device, flashStage := 0 } =
      (writer initial device).flush := by
  unfold writer PagedWriter.flush
  rw [commitPages_memory]
  rfl

/-- A commit of all the code. -/
theorem Held.commit (h : Held initial code device)
    (hend : device.flashCrntAddress.toNat = code.codeEnd) :
    Held initial code { device with pages := commitPages device, flashStage := 0 } ∧
      Programmed initial code { device with pages := commitPages device, flashStage := 0 } := by
  refine ⟨⟨h.start_le, h.le_end, fun a x hx hlt => ?_⟩, fun a x hx => ?_⟩
  · rw [writer_commit, PagedWriter.contents_flush]
    exact h.holds a x hx hlt
  · have hbounds := hx.bounds
    have hlt : a < device.flashCrntAddress.toNat := by
      rw [hend]
      exact hbounds.2
    show programMemory initial (commitPages device) a = x
    rw [commitPages_memory]
    exact h.holds a x hx hlt

/-- All the code is in the device, and the end of it is an address. -/
structure AllPushed (initial : ℕ → UInt8) (code : CodeSegment) (device : Flash p) : Prop where
  held : Held initial code device
  at_end : device.flashCrntAddress.toNat = code.codeEnd

/-- What is known during the commit. -/
def commitKnown (initial : ℕ → UInt8) (code : CodeSegment) (device : Flash p) : Knowledge where
  addresses v := code.startAddress ≤ v.toNat ∧ v.toNat ≤ device.flashCrntAddress.toNat
  complete := Programmed initial code device

/-- A commit is delivered, or a push that has been under way. -/
theorem commit_deliver {device' : Flash p} (hcase : DispatchCase device packet device' answers)
    (hp : IsPush code packet.payload ∨ packet.payload = [2, 4, 4])
    (h : AllPushed initial code device) :
    AllPushed initial code device' ∧
      commitKnown initial code device ≤ commitKnown initial code device' ∧
      AllOk (commitKnown initial code device') answers := by
  rcases hp with (hnext | ⟨addr, hstart, hlt, hpiece⟩) | hcommit
  · obtain ⟨rfl, hok⟩ := hcase.next hnext
    exact ⟨h, le_rfl, hok _ ⟨h.held.start_le, Nat.le_refl _⟩⟩
  · -- the device stands at the end of the code, behind every piece
    rcases hcase.push hpiece with ⟨rfl, hok⟩ | ⟨rfl, -⟩
    · exact ⟨h, le_rfl, hok _⟩
    · exact absurd h.at_end hlt.ne
  · rcases hcase.commit hcommit with ⟨rfl, hok⟩ | ⟨rfl, hok⟩
    · exact ⟨h, le_rfl, hok _⟩
    · obtain ⟨hheld, hprogrammed⟩ := h.held.commit h.at_end
      exact ⟨⟨hheld, h.at_end⟩, ⟨fun v hv => hv, fun _ => hprogrammed⟩, hok _ hprogrammed⟩

/-- The commit; pushes can still be in flight. -/
def commitPhase (p : Platform) (initial : ℕ → UInt8) (code : CodeSegment) : Phase p where
  mayAsk r := r.payload = [2, 4, 4]
  ground device requests :=
    (∀ q ∈ requests, IsPush code q.payload ∨ q.payload = [2, 4, 4]) ∧
      AllPushed initial code device
  known device _ := commitKnown initial code device
  result := Committed
  lose hsub h := ⟨⟨fun q hq => h.1 q (hsub.subset hq), h.2⟩, le_rfl⟩
  send hr hpayload h := ⟨⟨forall_mem_concat.mpr ⟨h.1, .inr (hpayload ▸ hr)⟩, h.2⟩, le_rfl⟩
  deliver hcase h := by
    obtain ⟨hall, hk, hok⟩ := commit_deliver hcase (h.1 _ List.mem_cons_self) h.2
    exact ⟨⟨fun q hq => h.1 q (List.mem_cons_of_mem _ hq), hall⟩, hk, hok⟩

end Committing

/-! ## Whole uploads -/

section Uploads

variable {p : Platform} {initial : ℕ → UInt8} {code : CodeSegment} {dev : UartBusDevice}
  {s s' : UploadSystem p}

/-- The phase of the upload. -/
inductive UploadInv (initial : ℕ → UInt8) (code : CodeSegment) (s : UploadSystem p) : Prop where
  | start (h : InPhase (startPhase p) s)
  | locate (h : InPhase (locatePhase p code) s)
  | push (h : InPhase (pushPhase p initial code) s)
  | commit (h : InPhase (commitPhase p initial code) s)

/-- From the stage and the start to the first address. -/
theorem InPhase.toLocate (h : InPhase (startPhase p) s)
    (hprogram : s.program = .done .locating) :
    InPhase (locatePhase p code) { s with program := pushCodeAt dev code .locating } :=
  h.enter hprogram ⟨s.requests, [], (List.append_nil _).symm, h.ground, by simp⟩
    (Knowledge.nothing_le _) (locating_safe rfl)

/-- From the first address to the loop: the device stands at the start of the code. -/
theorem InPhase.toPush (h : InPhase (locatePhase p code) s)
    (hprogram : s.program = .done (.pushing start 0))
    (hknown : (locateKnown s.device s.requests).addresses start)
    (hstart : start.toNat = code.startAddress) :
    InPhase (pushPhase p initial code)
      { s with program := pushCodeAt dev code (.pushing start 0) } := by
  obtain ⟨hcrnt, hnext⟩ := hknown
  rw [hcrnt] at hstart
  refine h.enter hprogram ⟨fun q hq => .inl (hnext q hq), fun _ => held_of_start hstart⟩
    ⟨fun v hv _ => ?_, fun hc => hc⟩
    (pushing_safe (.inl rfl) (fun _ hp => .inr hp) (.inl rfl))
  rw [hv.1]
  exact ⟨hstart.ge, Nat.le_refl _⟩

/-- From the loop to the commit: the device has taken all the code. -/
theorem InPhase.toCommit (h : InPhase (pushPhase p initial code) s)
    (hprogram : s.program = .done (.committing start))
    (hknown : (pushKnown code s.device).addresses addr) (hend : code.codeEnd ≤ addr.toNat) :
    InPhase (commitPhase p initial code)
      { s with program := pushCodeAt dev code (.committing start) } := by
  have hfits : Fits code := hend.trans (Nat.le_of_lt_succ addr.toNat_lt)
  have hheld := h.ground.2 hfits
  have hat : s.device.flashCrntAddress.toNat = code.codeEnd :=
    Nat.le_antisymm hheld.le_end (hend.trans (hknown hfits).2)
  exact h.enter hprogram ⟨fun q hq => .inl (h.ground.1 q hq), hheld, hat⟩
    ⟨fun v hv => hv hfits, False.elim⟩ (committing_safe rfl)

/-- The uploader goes on to its next statement. -/
theorem UploadInv.advance (h : UploadInv initial code s)
    (hstep : uploadStep dev code s .advance = some s') : UploadInv initial code s' := by
  simp only [uploadStep] at hstep
  split at hstep
  · cases hstep
  next point hreturned hprogram =>
    cases hstep
    cases h with
    | start h =>
      cases h.result hprogram with
      | starting =>
        exact .start (h.enter hprogram h.ground le_rfl (starting_safe (.inr rfl)))
      | locating => exact .locate (h.toLocate hprogram)
      | failed e => exact absurd rfl (hreturned (.error e))
    | locate h =>
      cases h.result hprogram with
      | pushing start hknown hstart => exact .push (h.toPush hprogram hknown hstart)
      | failed e => exact absurd rfl (hreturned (.error e))
    | push h =>
      cases h.result hprogram with
      | pushing start addr haddr =>
        exact .push (h.enter hprogram h.ground le_rfl
          (pushing_safe (.inl rfl) (fun _ hp => .inr hp) haddr))
      | committing start addr hknown hend => exact .commit (h.toCommit hprogram hknown hend)
      | failed e => exact absurd rfl (hreturned (.error e))
    | commit h =>
      cases h.result hprogram with
      | returned start hcomplete => exact absurd rfl (hreturned (.ok start))
      | failed e => exact absurd rfl (hreturned (.error e))
  next => cases hstep

/-- **One step** of the system. -/
theorem UploadInv.step {act : UploadAction} (h : UploadInv initial code s)
    (hstep : uploadStep dev code s act = some s') : UploadInv initial code s' := by
  by_cases hact : act = .advance
  · subst hact
    exact h.advance hstep
  · cases h with
    | start h => exact .start (h.step hact hstep)
    | locate h => exact .locate (h.step hact hstep)
    | push h => exact .push (h.step hact hstep)
    | commit h => exact .commit (h.step hact hstep)

theorem uploadInv_begin (initial : ℕ → UInt8) (dev : UartBusDevice) (code : CodeSegment)
    (fromAddress : ℤ) (device : Flash p) :
    UploadInv initial code (UploadSystem.begin dev code fromAddress device) :=
  .start
    { ground := List.forall_mem_nil _
      answers := List.forall_mem_nil _
      waits := .idle rfl
      safe := show (pushCodeAt dev code .staging).SafeFrom _ _ _ _ from
        staging_safe (.inl rfl) }

/-- Only the commit ends well. -/
theorem UploadInv.programmed (h : UploadInv initial code s)
    (hprogram : s.program = .done (.returned (.ok start))) : Programmed initial code s.device := by
  cases h with
  | start h => cases h.result hprogram
  | locate h => cases h.result hprogram
  | push h => cases h.result hprogram
  | commit h =>
    cases h.result hprogram with
    | returned _ hcomplete => exact hcomplete

/-- **A successful upload has programmed the code.**  Whatever requests and answers get lost and
however late answers come: when `push_code` returns the address, the program memory at the
addresses of the code is the code.
SOURCE: upload.rs:159-235, ub_bootloader.c:223-352, rpc/bus.rs:42-67 -/
theorem upload_programs_code (p : Platform) (initial : ℕ → UInt8) (dev : UartBusDevice)
    (code : CodeSegment) (fromAddress : ℤ) (device : Flash p) (acts : List UploadAction)
    (s : UploadSystem p) (start : UInt16)
    (hrun : run (uploadStep dev code) (UploadSystem.begin dev code fromAddress device) acts =
      some s)
    (hok : s.program = .done (.returned (.ok start))) :
    readRange (programMemory initial s.device.pages) code.startAddress code.codeEnd =
      code.data := by
  have hinv : UploadInv initial code s :=
    run_invariant_all (fun _ _ _ hs hstep => hs.step hstep)
      (uploadInv_begin initial dev code fromAddress device) hrun
  exact readRange_eq_iff.mpr (hinv.programmed hok)

/-- A code of five bytes. -/
def smallCode : CodeSegment :=
  { startAddress := 0x2000, endAddress := 0x2005, data := [1, 2, 3, 4, 5], building := false }

/-- The start address of a `push_code` that has returned one. -/
def returnedStart : ClientProgram UploadPoint → Option UInt16
  | .done (.returned (.ok start)) => some start
  | _ => none

theorem program_of_returnedStart {q : ClientProgram UploadPoint}
    (h : returnedStart q = some start) :
    q = .done (.returned (.ok start)) := by
  unfold returnedStart at h
  split at h
  next => rw [Option.some.inj h]
  next => cases h

/-- Five bytes for pages of four.  The first start is lost, and the answer of the first push
comes when the push has been sent again; it is taken for the answer of the second one. -/
theorem upload_programs_code_five_bytes :
    ∃ acts, ∃ s : UploadSystem smallPlatform,
      run (uploadStep ⟨2, 100, 2⟩ smallCode)
        (UploadSystem.begin ⟨2, 100, 2⟩ smallCode 1
          (Flash.powerOn (Vector.replicate 4 0) true)) acts = some s ∧
      s.program = .done (.returned (.ok 0x2000)) ∧
      readRange (programMemory (fun _ => 0xff) s.device.pages) 0x2000 0x2005 =
        [1, 2, 3, 4, 5] := by
  have hend : (run (uploadStep ⟨2, 100, 2⟩ smallCode)
      (UploadSystem.begin (p := smallPlatform) ⟨2, 100, 2⟩ smallCode 1
        (Flash.powerOn (Vector.replicate 4 0) true))
      [.send, .deliverRequest, .deliverAnswer, .receive, .advance,
        .send, .loseRequest 0, .giveUp, .send, .deliverRequest, .deliverAnswer, .receive,
        .advance, .send, .deliverRequest, .deliverAnswer, .receive, .advance,
        .send, .deliverRequest, .deliverAnswer, .receive,
        .send, .deliverRequest, .giveUp, .send, .deliverAnswer, .receive, .advance,
        .advance, .send, .deliverRequest, .deliverRequest, .deliverAnswer, .deliverAnswer,
        .receive]).map
      (fun s => returnedStart s.program) = some (some 0x2000) := by decide +kernel
  obtain ⟨s, hrun, hs⟩ := Option.map_eq_some_iff.mp hend
  have hok := program_of_returnedStart hs
  exact ⟨_, s, hrun, hok,
    upload_programs_code smallPlatform (fun _ => 0xff) _ smallCode 1 _ _ s 0x2000 hrun hok⟩

end Uploads

end Uartbus.Analysis
