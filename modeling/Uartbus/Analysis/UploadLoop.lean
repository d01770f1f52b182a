import Uartbus.Analysis.UploadSafety

/-!
# Rounds of the upload loop

A round of the loop of `push_code` that goes on to another round has made a request, unless it
began with an address other than 0 below the code (`pushing_asks`): such an address is neither
asked for again nor pushed to, and the round leaves it as it is.
-/

set_option autoImplicit false

namespace Uartbus.Analysis

open Lib Model

variable {dev : UartBusDevice} {code : CodeSegment} {start addr next : UInt16}
  {outcomes : List Outcome}

/-- The rounds of the loop between two addresses, each with the outcomes of its requests. -/
inductive Rounds (dev : UartBusDevice) (code : CodeSegment) (A : Request → Outcome → Prop)
    (start : UInt16) : UInt16 → List (List Outcome) → UInt16 → Prop where
  | none (addr : UInt16) : Rounds dev code A start addr [] addr
  | round {addr next last : UInt16} {outcomes : List Outcome} {rest : List (List Outcome)}
      (h : (pushCodeAt dev code (.pushing start addr)).Plays A outcomes (.pushing start next))
      (hrest : Rounds dev code A start next rest last) :
      Rounds dev code A start addr (outcomes :: rest) last

/-- Nothing is told of an address other than 0 below the code. -/
def noLowAddress (code : CodeSegment) : Knowledge :=
  { addresses := fun v => v = 0 ∨ code.startAddress ≤ v.toNat, complete := True }

theorem not_low (h : AddrInv (noLowAddress code) addr) :
    addr = 0 ∨ code.startAddress ≤ addr.toNat :=
  h.elim .inl id

/-! ## A round that asks -/

theorem callLoop_asks {function : UbFunction} {request : Request} {attempts : ℕ}
    {lastError : Option String} (h : attempts ≠ 0) :
    (dev.callLoop function request attempts lastError).Asks := by
  cases attempts with
  | zero => exact absurd rfl h
  | succ attempts => trivial

theorem flashGetNextAddress_asks (h : dev.retryCount ≠ 0) : dev.flashGetNextAddress.Asks := by
  have hcall : (dev.call UartBusDevice.nsFlash ⟨2, .value .u16, false, true⟩ []).Asks := by
    exact callLoop_asks h
  exact (hcall.bind _).bind _

theorem flashPushCode_asks (h : dev.retryCount ≠ 0) (piece : Bytes) :
    (dev.flashPushCode addr piece).Asks := by
  have hcall : (dev.call UartBusDevice.nsFlash ⟨3, .value .u16, true, false⟩
      [.u16 addr, .bytes piece]).Asks := by
    exact callLoop_asks h
  exact (hcall.bind _).bind _

/-- The body of the loop asks, or ends the loop. -/
theorem pushStep_asks (h : dev.retryCount ≠ 0)
    (haddr : addr = 0 ∨ code.startAddress ≤ addr.toNat) :
    (pushStep dev code addr).Asks ∨ pushStep dev code addr = .done (.ok true, addr) := by
  unfold pushStep
  split
  · exact .inl ((flashGetNextAddress_asks h).bind _)
  next hne =>
    have hstart := Nat.not_lt.mpr (haddr.resolve_left hne)
    unfold pushPiece
    split
    · exact .inr rfl
    · exact .inl ((flashPushCode_asks h _).bind _)

/-- A round that goes on has asked. -/
theorem pushing_asks {A : Request → Outcome → Prop}
    (haddr : addr = 0 ∨ code.startAddress ≤ addr.toNat)
    (h : (pushCodeAt dev code (.pushing start addr)).Plays A outcomes (.pushing start next)) :
    outcomes ≠ [] := by
  change ((transactionLoop (pushStep dev code) dev.retryCount _ addr).bind _).Plays A _ _ at h
  cases hretry : dev.retryCount with
  | zero =>
    rw [hretry] at h
    cases h.2
  | succ attempts =>
    rw [hretry] at h
    have hne : dev.retryCount ≠ 0 := by omega
    unfold transactionLoop at h
    rcases pushStep_asks hne haddr with hasks | hdone
    · exact ((hasks.bind _).bind _).ne_nil h
    · rw [hdone] at h
      cases h.2

/-- A round ends with an address that was told. -/
theorem pushing_addr {k : Knowledge} (haddr : AddrInv k addr)
    (h : (pushCodeAt dev code (.pushing start addr)).Plays (Told k) outcomes
      (.pushing start next)) :
    AddrInv k next := by
  have hsafe : (pushCodeAt dev code (.pushing start addr)).SafeFrom (fun _ => True) Told
      (Pushed code) k := pushing_safe trivial (fun _ _ => trivial) haddr
  have hpushed : Pushed code k (.pushing start next) := (hsafe k le_rfl).plays h
  cases hpushed with
  | pushing _ _ hnext => exact hnext

theorem Rounds.ne_nil {last : UInt16} {rounds : List (List Outcome)}
    (h : Rounds dev code (Told (noLowAddress code)) start addr rounds last)
    (haddr : AddrInv (noLowAddress code) addr) : ∀ outcomes ∈ rounds, outcomes ≠ [] := by
  induction h with
  | none => simp
  | round hround _ ih =>
    rw [List.forall_mem_cons]
    exact ⟨pushing_asks (not_low haddr) hround, ih (pushing_addr haddr hround)⟩

/-- **The upload loop does not spin**, as long as no answer tells an address other than 0 below
the code: every round that goes on to another one has made a request.
SOURCE: upload.rs:68-81, 182-225 -/
theorem rounds_communicate (dev : UartBusDevice) (code : CodeSegment) (start last : UInt16)
    (rounds : List (List Outcome))
    (hrounds : Rounds dev code (Told (noLowAddress code)) start 0 rounds last) :
    ∀ outcomes ∈ rounds, outcomes ≠ [] :=
  hrounds.ne_nil (.inl rfl)

/-- A device that is asked once. -/
def oneTry : UartBusDevice := { address := 2, timeout := 100, retryCount := 1 }

/-- Code of 40 bytes, which takes two blocks. -/
def twoBlocks : CodeSegment := (CodeSegment.new 0x2000).appendCode (List.replicate 40 7)

/-- The answers to the round that asks for the address and pushes the first block, and to the one
that pushes the second block. -/
def twoBlockRounds : List (List Outcome) :=
  [[.response [0, 2, 4, 2, 0x20, 0], .response [0, 2, 4, 3, 0, 0x20, 0x20]],
    [.response [0, 2, 4, 3, 0, 0x20, 0x28]]]

/-- The two rounds of `twoBlocks`. -/
theorem rounds_communicate_two_blocks :
    Rounds oneTry twoBlocks (Told (noLowAddress twoBlocks)) 0x2000 0 twoBlockRounds 0x2028 ∧
      ∀ outcomes ∈ twoBlockRounds, outcomes ≠ [] := by
  have hnext : AnswerOk (noLowAddress twoBlocks) (flashAnswer smallPlatform 0 2
      [highByte 0x2000, lowByte 0x2000]).payload := answerOk_next (.inr (by decide))
  have hpushed : ∀ v : UInt16, twoBlocks.startAddress ≤ v.toNat →
      AnswerOk (noLowAddress twoBlocks) (flashAnswer smallPlatform 0 3
        [0, highByte v, lowByte v]).payload := fun v hv => answerOk_pushed (.inr hv)
  have hrounds : Rounds oneTry twoBlocks (Told (noLowAddress twoBlocks)) 0x2000 0 twoBlockRounds
      0x2028 :=
    .round ⟨⟨by decide, hnext⟩, ⟨by decide, hpushed 0x2020 (by decide)⟩, rfl, rfl⟩
      (.round ⟨⟨by decide, hpushed 0x2028 (by decide)⟩, rfl, rfl⟩ (.none _))
  exact ⟨hrounds, rounds_communicate oneTry twoBlocks 0x2000 0x2028 _ hrounds⟩

/-! ## A round that does not -/

/-- Code that reaches beyond the 16 bit addresses. -/
def beyondEnd : CodeSegment := (CodeSegment.new 0xFFF0).appendCode (List.replicate 40 7)

/-- The device expects the code at `0xFFF0`, takes 32 bytes and answers with the address `0x10`:
from then on the loop turns without a request, as often as one likes. -/
theorem beyondEnd_rounds (n : ℕ) :
    Rounds oneTry beyondEnd (Told ⟨fun _ => True, True⟩) 0xFFF0 0
      ([.response [0, 2, 4, 2, 0xFF, 0xF0], .response [0, 2, 4, 3, 0, 0, 0x10]] ::
        List.replicate n []) 0x10 := by
  have hnext : AnswerOk ⟨fun _ => True, True⟩ (flashAnswer smallPlatform 0 2
      [highByte 0xFFF0, lowByte 0xFFF0]).payload := answerOk_next trivial
  have hpushed : AnswerOk ⟨fun _ => True, True⟩ (flashAnswer smallPlatform 0 3
      [0, highByte 0x10, lowByte 0x10]).payload := answerOk_pushed trivial
  have hspins : Rounds oneTry beyondEnd (Told ⟨fun _ => True, True⟩) 0xFFF0 0x10
      (List.replicate n []) 0x10 := by
    induction n with
    | zero => exact .none _
    | succ n ih =>
      refine .round ?_ ih
      exact ⟨rfl, rfl⟩
  exact .round ⟨⟨by decide, hnext⟩, ⟨by decide, hpushed⟩, rfl, rfl⟩ hspins

/-- There are rounds without a request, and nothing bounds how many of them there are. -/
theorem rounds_spin :
    (∃ rounds, Rounds oneTry beyondEnd (Told ⟨fun _ => True, True⟩) 0xFFF0 0 rounds 0x10 ∧
        [] ∈ rounds) ∧
      ¬ ∃ bound, ∀ rounds, Rounds oneTry beyondEnd (Told ⟨fun _ => True, True⟩) 0xFFF0 0 rounds
        0x10 → rounds.count [] ≤ bound := by
  refine ⟨⟨_, beyondEnd_rounds 1, by simp⟩, ?_⟩
  rintro ⟨bound, hbound⟩
  have hcount := hbound _ (beyondEnd_rounds (bound + 1))
  simp at hcount

end Uartbus.Analysis
