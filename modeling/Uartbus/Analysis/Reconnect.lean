import Mathlib.Data.List.Nodup
import Uartbus.Interface.ConnectorHistory

/-!
# One reconnect for each broken stream

`IoEffect` lists what a move can do to the stream and what it leaves in the log.  From it:
the streams are replaced one after another, each by a report for the generation that is there
(`ConnectorKept`), however late the other reports come.
-/

set_option autoImplicit false

namespace Uartbus.Analysis

open Lib Interface Model

/-! ## What a move can do -/

/-- An entry of the log that is not about a generation. -/
def Quiet : ConnectorEvent → Prop
  | .wrote .. | .opened _ | .openFailed _ | .tookReader _ | .stale _ => False
  | _ => True

/-- What a move does to the stream. -/
inductive IoEffect (io : IoState) : IoState → List ConnectorEvent → Prop where
  | quiet (events : List ConnectorEvent) (h : ∀ e ∈ events, Quiet e) : IoEffect io io events
  | wrote (bytes : Bytes) (ok : Bool) : IoEffect io io [.wrote io.generation bytes ok]
  | stale (generation : ℕ) (h : generation ≠ io.generation) : IoEffect io io [.stale generation]
  | opened (child : Option ℕ) :
      IoEffect io { generation := io.generation + 1, reader := true, child := child }
        (killedChild io ++ [.opened io.generation])
  | openFailed :
      IoEffect io { io with child := none } (killedChild io ++ [.openFailed io.generation])
  | tookReader (h : io.reader = true) :
      IoEffect io { io with reader := false } [.tookReader io.generation]
  | childTaken : IoEffect io { io with child := none } (killedChild io ++ [.childTaken])

variable {onClosed : OnStreamClosed} {choice : ConnectorChoice} {s s' : ConnectorShared}
  {l l' : ConnectorLocal} {events : List ConnectorEvent} {e : ConnectorEvent}

theorem manageClosedConnection_effect (factory : Option Bool) (s : ConnectorShared)
    (generation : ℕ) :
    IoEffect s.io (manageClosedConnection onClosed factory s generation).1.io
      (manageClosedConnection onClosed factory s generation).2.2 := by
  unfold manageClosedConnection
  split
  next hother => exact .stale generation (Ne.symm hother)
  next hsame =>
    obtain rfl := Decidable.not_not.mp hsame
    split
    · exact .quiet _ (List.forall_mem_singleton.mpr trivial)
    · exact .opened _
    · exact .openFailed

theorem sendWrite_effect (outcome : WriteOutcome) (io : IoState) (framed : Bytes) :
    IoEffect io io (sendWrite outcome io.generation framed).2 := by
  cases outcome with
  | ok | writeFails | flushFails => exact .wrote _ _

theorem loopRead_quiet (cutter : FramedPacketCutter) (generation : ℕ) (read : StreamRead) :
    ∀ e ∈ (loopRead cutter generation read).2, Quiet e := by
  unfold loopRead
  split
  · simp
  · simp
  · intro e he
    obtain ⟨packet, -, rfl⟩ := List.mem_map.mp he
    trivial
  · simp

/-- The effect of a move. -/
theorem connectorNext_effect
    (hnext : connectorNext onClosed choice s l = some (s', l', events)) :
    IoEffect s.io s'.io events := by
  have hnothing : IoEffect s.io s.io [] := .quiet [] (by simp)
  have hone : ∀ e, Quiet e → IoEffect s.io s.io [e] := fun e he =>
    .quiet [e] (List.forall_mem_singleton.mpr he)
  cases l with
  | sendChecking _ | listenStarting =>
    rw [connectorNext] at hnext
    split at hnext
    all_goals
      obtain ⟨rfl, -, rfl⟩ := hnext
      first | exact hnothing | exact hone _ trivial
  | sendWriting framed =>
    obtain ⟨rfl, hwrite⟩ := Prod.mk.inj (Option.some.inj hnext)
    have hevents : (sendWrite choice.write s.io.generation framed).2 = events :=
      congrArg Prod.snd hwrite
    rw [← hevents]
    exact sendWrite_effect choice.write s.io framed
  | sendReporting framed generation text | loopReporting cutter generation =>
    obtain ⟨rfl, -, rfl⟩ := hnext
    exact manageClosedConnection_effect choice.factory s generation
  | loopWaiting cutter =>
    rw [connectorNext] at hnext
    split at hnext
    · cases hnext
    · obtain ⟨rfl, -, rfl⟩ := hnext
      exact hnothing
  | listenSpawning | loopChecking _ | loopBroken _ _ =>
    rw [connectorNext] at hnext
    split at hnext
    all_goals
      obtain ⟨rfl, -, rfl⟩ := hnext
      exact hnothing
  | loopTaking cutter =>
    rw [connectorNext] at hnext
    split at hnext
    next hreader =>
      obtain ⟨rfl, -, rfl⟩ := hnext
      exact .tookReader hreader
    next =>
      obtain ⟨rfl, -, rfl⟩ := hnext
      exact hone _ trivial
  | loopReading cutter generation =>
    obtain ⟨rfl, hread⟩ := Prod.mk.inj (Option.some.inj hnext)
    have hevents : (loopRead cutter generation choice.read).2 = events :=
      congrArg Prod.snd hread
    rw [← hevents]
    exact .quiet _ (loopRead_quiet cutter generation choice.read)
  | closing =>
    obtain ⟨rfl, -, rfl⟩ := hnext
    exact hone _ trivial
  | closingChild =>
    obtain ⟨rfl, -, rfl⟩ := hnext
    exact .childTaken
  | sendEnded | listenEnded | loopEnded | closeEnded => cases hnext

/-! ## The generations -/

/-- What holds of the stream and the log. -/
structure ConnectorKept (s : ConnectorShared) (log : List (ℕ × ConnectorEvent)) : Prop where
  replaced : replacedIn log = List.range s.io.generation
  fits : AtEach FitsGeneration log
  taken : (takenIn log).Nodup
  present : ∀ generation ∈ takenIn log, generation ≤ s.io.generation ∧
    (generation = s.io.generation → s.io.reader = false)

theorem connectorKept_new (hasChild : Bool) : ConnectorKept (ConnectorShared.new hasChild) [] :=
  ⟨rfl, atEach_nil _, List.nodup_nil, fun _ h => (by cases h)⟩

theorem replacedIn_append (log more : List (ℕ × ConnectorEvent)) :
    replacedIn (log ++ more) = replacedIn log ++ replacedIn more := List.filterMap_append

theorem takenIn_append (log more : List (ℕ × ConnectorEvent)) :
    takenIn (log ++ more) = takenIn log ++ takenIn more := List.filterMap_append

theorem Quiet.fits (h : Quiet e) (i : ℕ) (before : List (ℕ × ConnectorEvent)) :
    FitsGeneration before (i, e) := by
  cases e <;> trivial

variable {log : List (ℕ × ConnectorEvent)} {i : ℕ}

theorem generations_quiet (h : ∀ e ∈ events, Quiet e) :
    replacedIn (ownedBy i events) = [] ∧ takenIn (ownedBy i events) = [] := by
  unfold replacedIn takenIn
  rw [List.filterMap_eq_nil_iff, List.filterMap_eq_nil_iff, ← forall₂_and]
  intro e he
  have hquiet := h e.2 (mem_ownedBy.mp he).2
  revert hquiet
  cases e.2 <;> simp [Quiet]

theorem killedChild_quiet (io : IoState) : ∀ e ∈ killedChild io, Quiet e := by
  intro e he
  obtain ⟨child, -, rfl⟩ := List.mem_map.mp he
  trivial

/-- The present generation is the number of replaced streams. -/
theorem ConnectorKept.length_replaced (h : ConnectorKept s log) :
    (replacedIn log).length = s.io.generation := by
  rw [h.replaced, List.length_range]

section SameStream

variable (h : ConnectorKept s log) (hgeneration : s'.io.generation = s.io.generation)
  (hreader : s'.io.reader = s.io.reader)
include h hgeneration hreader

/-- Entries that fit and are not about a stream opened or a reader taken. -/
theorem ConnectorKept.more {more : List (ℕ × ConnectorEvent)}
    (hfits : AtEach FitsGeneration (log ++ more))
    (hnone : replacedIn more = [] ∧ takenIn more = []) : ConnectorKept s' (log ++ more) where
  replaced := by rw [replacedIn_append, hnone.1, List.append_nil, h.replaced, hgeneration]
  fits := hfits
  taken := by
    rw [takenIn_append, hnone.2, List.append_nil]
    exact h.taken
  present := by
    rw [takenIn_append, hnone.2, List.append_nil, hgeneration, hreader]
    exact h.present

/-- Entries that are not about a generation. -/
theorem ConnectorKept.quiet (hquiet : ∀ e ∈ events, Quiet e) :
    ConnectorKept s' (log ++ ownedBy i events) := by
  refine h.more hgeneration hreader (h.fits.append fun e he before => ?_) (generations_quiet hquiet)
  exact (hquiet e.2 (mem_ownedBy.mp he).2).fits e.1 before

theorem ConnectorKept.entry (hfits : FitsGeneration log (i, e))
    (hnone : replacedIn [(i, e)] = [] ∧ takenIn [(i, e)] = []) :
    ConnectorKept s' (log ++ [(i, e)]) :=
  h.more hgeneration hreader (atEach_concat.mpr ⟨h.fits, hfits⟩) hnone

end SameStream

theorem ConnectorKept.opened (h : ConnectorKept s log)
    (hgeneration : s'.io.generation = s.io.generation + 1) :
    ConnectorKept s' (log ++ [(i, .opened s.io.generation)]) where
  replaced := by
    rw [replacedIn_append, h.replaced, hgeneration, List.range_succ]
    rfl
  fits := atEach_concat.mpr ⟨h.fits, h.length_replaced.symm⟩
  taken := by
    rw [takenIn_append]
    exact (List.append_nil _).symm ▸ h.taken
  present := by
    intro generation hmem
    rw [takenIn_append, show takenIn [(i, .opened s.io.generation)] = [] from rfl,
      List.append_nil] at hmem
    have hle := (h.present generation hmem).1
    omega

/-- The reader of a generation is taken once. -/
theorem ConnectorKept.tookReader (h : ConnectorKept s log) (hreader : s.io.reader = true)
    (hgeneration : s'.io.generation = s.io.generation) (hreader' : s'.io.reader = false) :
    ConnectorKept s' (log ++ [(i, .tookReader s.io.generation)]) where
  replaced := by
    rw [replacedIn_append, h.replaced, hgeneration]
    exact List.append_nil _
  fits := atEach_concat.mpr ⟨h.fits, h.length_replaced.symm⟩
  taken := by
    -- the reader was there, so that it had not been taken
    have hnew : s.io.generation ∉ takenIn log := by
      intro hmem
      rw [(h.present _ hmem).2 rfl] at hreader
      cases hreader
    rw [takenIn_append, List.nodup_append]
    refine ⟨h.taken, List.nodup_singleton _, fun a ha b hb => ?_⟩
    rintro rfl
    rw [List.mem_singleton.mp hb] at ha
    exact hnew ha
  present := by
    intro generation hmem
    rw [takenIn_append] at hmem
    refine ⟨?_, fun _ => hreader'⟩
    rw [hgeneration]
    rcases List.mem_append.mp hmem with hmem | hmem
    · exact (h.present generation hmem).1
    · exact Nat.le_of_eq (List.mem_singleton.mp hmem)

/-- The effects keep the generations in order. -/
theorem IoEffect.kept (heffect : IoEffect s.io s'.io events) (h : ConnectorKept s log) :
    ConnectorKept s' (log ++ ownedBy i events) := by
  -- a child that is killed comes before the entry about the generation
  have hsplit : ∀ e, log ++ ownedBy i (killedChild s.io ++ [e]) =
      log ++ ownedBy i (killedChild s.io) ++ [(i, e)] := fun e => by simp [ownedBy]
  have hkilled : ConnectorKept s (log ++ ownedBy i (killedChild s.io)) :=
    h.quiet rfl rfl (killedChild_quiet s.io)
  generalize hio : s'.io = io' at heffect
  cases heffect with
  | quiet _ hquiet => exact h.quiet (by rw [hio]) (by rw [hio]) hquiet
  | wrote bytes ok =>
    exact h.entry (by rw [hio]) (by rw [hio]) h.length_replaced.symm ⟨rfl, rfl⟩
  | stale generation hother =>
    have hfits : generation ≠ (replacedIn log).length := fun heq =>
      hother (heq.trans h.length_replaced)
    exact h.entry (by rw [hio]) (by rw [hio]) hfits ⟨rfl, rfl⟩
  | opened child =>
    rw [hsplit]
    exact hkilled.opened (by rw [hio])
  | openFailed =>
    rw [hsplit]
    exact hkilled.entry (by rw [hio]) (by rw [hio]) hkilled.length_replaced.symm ⟨rfl, rfl⟩
  | tookReader hreader => exact h.tookReader hreader (by rw [hio]) (by rw [hio])
  | childTaken =>
    rw [hsplit]
    exact hkilled.entry (by rw [hio]) (by rw [hio]) trivial ⟨rfl, rfl⟩

/-! ## Packets that are sent -/

theorem manageClosedConnection_failed (framed : Bytes) (factory : Option Bool)
    (s : ConnectorShared) (generation : ℕ) :
    ∀ e ∈ (manageClosedConnection onClosed factory s generation).2.2, FailedWrite framed e := by
  have hkilled : ∀ e ∈ killedChild s.io, FailedWrite framed e := by
    intro e he
    obtain ⟨child, -, rfl⟩ := List.mem_map.mp he
    trivial
  unfold manageClosedConnection
  split
  · exact List.forall_mem_singleton.mpr trivial
  · split
    · exact List.forall_mem_singleton.mpr trivial
    · exact forall_mem_concat.mpr ⟨hkilled, trivial⟩
    · exact forall_mem_concat.mpr ⟨hkilled, trivial⟩

/-- A move of a `send_packet`. -/
theorem sendHistory_move {framed : Bytes} {own : List ConnectorEvent}
    (h : SendHistory framed l own)
    (hnext : connectorNext onClosed choice s l = some (s', l', events)) :
    SendHistory framed l' (own ++ events) := by
  cases h with
  | checking hfailed =>
    rw [connectorNext] at hnext
    split at hnext
    · obtain ⟨-, rfl, rfl⟩ := hnext
      rw [List.append_nil]
      exact .writing hfailed
    · obtain ⟨-, rfl, rfl⟩ := hnext
      exact .failed _ (forall_mem_concat.mpr ⟨hfailed, trivial⟩)
  | writing hfailed =>
    have hwrite := (Prod.mk.inj (Option.some.inj hnext)).2
    have hreport : ∀ generation text bytes, bytes <+: framed →
        SendHistory framed (.sendReporting framed generation text)
          (own ++ [.wrote generation bytes false]) := fun generation text bytes hpart =>
      .reporting generation text (forall_mem_concat.mpr ⟨hfailed, rfl, hpart⟩)
    unfold sendWrite at hwrite
    split at hwrite
    · obtain ⟨rfl, rfl⟩ := Prod.mk.inj hwrite
      exact .sent _ hfailed
    · obtain ⟨rfl, rfl⟩ := Prod.mk.inj hwrite
      exact hreport _ _ _ (List.take_prefix _ framed)
    · obtain ⟨rfl, rfl⟩ := Prod.mk.inj hwrite
      exact hreport _ _ _ List.prefix_rfl
  | reporting generation text hfailed =>
    obtain ⟨-, rfl, rfl⟩ := hnext
    have hreported : ∀ e ∈
        (manageClosedConnection onClosed choice.factory s generation).2.2,
          FailedWrite framed e :=
      manageClosedConnection_failed framed choice.factory s generation
    have hall := List.forall_mem_append.mpr ⟨hfailed, hreported⟩
    split
    · exact .checking hall
    · exact .failed text hall
  | sent | failed => cases hnext

/-- What holds of a call. -/
def ConnectorCallKept (escape : UInt8) (_ : ConnectorShared) (op : ConnectorOp)
    (l : ConnectorLocal) (own : List ConnectorEvent) : Prop :=
  ∀ data, op = .sendPacket data → SendHistory (frameBytes data escape) l own

theorem connectorThreads_kept (escape : UInt8) (onClosed : OnStreamClosed) :
    (connectorThreads escape onClosed).Kept (fun _ _ _ => True) ConnectorKept
      (ConnectorCallKept escape) where
  enter := by
    rintro s log op _ data rfl
    exact .checking fun _ h => (by cases h)
  own := by
    intro s log i op l choice s' l' events hI hA _ hnext
    exact ⟨(connectorNext_effect hnext).kept hI,
      fun data hop => sendHistory_move (hA data hop) hnext⟩
  other := by
    intro s log i op l choice s' l' events op' m own _ _ hA _ _
    exact hA

/-! ## Every interleaving -/

/-- **One reconnect for each broken stream.**  In every interleaving of any number of calls of
`send_packet`, `start_listen` and `close` with any number of receive loops, whatever reads, writes
and opens fail: the streams of the generations 0, 1, 2, ... are replaced one after another, each
once and by a report for the generation that is there at that time, and the generation is their
number; a writer is written to and a reader taken in the present generation, and the reader of a
generation at most once; and every `send_packet` that has returned Ok has written its whole frame
to the writer of one generation.
SOURCE: connector.rs:130-217, 225-257 -/
theorem one_reconnect_per_generation (escape : UInt8) (onClosed : OnStreamClosed)
    (hasChild : Bool) (turns : List (Turn ConnectorOp ConnectorChoice)) (p : ConnectorPool)
    (hrun : run (connectorThreads escape onClosed).step
      (Pool.start (ConnectorShared.new hasChild)) turns = some p) :
    replacedIn p.log = List.range p.shared.io.generation ∧ AtEach FitsGeneration p.log ∧
      (takenIn p.log).Nodup ∧
      ∀ i data l, p.calls[i]? = some (.sendPacket data, l) →
        SendHistory (frameBytes data escape) l (callEvents i p.log) := by
  obtain ⟨hkept, hcalls, -⟩ :=
    (connectorThreads_kept escape onClosed).run_all (connectorKept_new hasChild) hrun
  exact ⟨hkept.replaced, hkept.fits, hkept.taken,
    fun i data l hcall => hcalls i _ l hcall data rfl⟩

/-- Everything goes well but reads, which find the end of the stream. -/
def steadyChoice : ConnectorChoice :=
  { write := .ok, factory := some true, read := .ok [], spawns := true }

/-- A packet is sent while the receive loop reads; the write fails after one byte and the read
finds the end.  The report of the sender replaces the stream, the one of the loop is too late, and
the packet is written to the new stream. -/
def brokenStreamTurns : List (Turn ConnectorOp ConnectorChoice) :=
  [.enter .startListen, .move 0 steadyChoice, .move 0 steadyChoice,
    .enter .receiveLoop, .move 1 steadyChoice, .move 1 steadyChoice, .move 1 steadyChoice,
    .enter (.sendPacket [7]), .move 2 steadyChoice,
    .move 2 { steadyChoice with write := .writeFails 1 "broken pipe" },
    .move 1 steadyChoice, .move 1 steadyChoice,
    .move 2 steadyChoice, .move 1 steadyChoice, .move 2 steadyChoice, .move 2 steadyChoice]

/-- In `brokenStreamTurns` one stream replaces the broken one, and the packet is written to it. -/
theorem one_reconnect_per_generation_sample :
    ∃ p, run (connectorThreads 0xff .reconnect).step (Pool.start (ConnectorShared.new true))
        brokenStreamTurns = some p ∧
      p.shared.io.generation = 1 ∧ replacedIn p.log = List.range 1 ∧ (takenIn p.log).Nodup ∧
      p.calls[2]? = some (.sendPacket [7], .sendEnded (.ok ())) ∧
      SendHistory (frameBytes [7] 0xff) (.sendEnded (.ok ())) (callEvents 2 p.log) := by
  obtain ⟨p, hrun, hgeneration, hcall⟩ : ∃ p, run (connectorThreads 0xff .reconnect).step
      (Pool.start (ConnectorShared.new true)) brokenStreamTurns = some p ∧
        p.shared.io.generation = 1 ∧
        p.calls[2]? = some (.sendPacket [7], .sendEnded (.ok ())) := ⟨_, rfl, rfl, rfl⟩
  obtain ⟨hreplaced, -, htaken, hcalls⟩ :=
    one_reconnect_per_generation 0xff .reconnect true brokenStreamTurns p hrun
  rw [hgeneration] at hreplaced
  exact ⟨p, hrun, hgeneration, hreplaced, htaken, hcall, hcalls 2 [7] _ hcall⟩

end Uartbus.Analysis
