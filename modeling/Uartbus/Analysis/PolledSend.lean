import Uartbus.Analysis.LinkProgress
import Uartbus.Analysis.SendEcho

/-!
# Sending without interrupt reads

Without `ub_cfg_read_with_interrupt` nothing compares the echo of a byte with `wi`, and nothing
sets `wi` back to `~0`: `ub_send_packet` throws away what `do_receive_byte` returns, and
`ub_out_rec_byte` only stores the time.  When the packet is sent, `wi` is its last byte, and
`ub_out_update_state` takes the silence behind it for a missing echo.

`PolledInv` says what holds at each point of the call; `polled_send_completes_iff` that the
transmission ends as it should exactly for the empty packet.
-/

set_option autoImplicit false

namespace Uartbus.Analysis

open Lib Interface Model

variable {packet : Bytes} {point q : SendPoint} {n : Node}

/-- Time passes, or `ub_send_packet` makes a step in which `do_send_byte` returns 0.  What
`do_receive_byte` returns is read by nobody. -/
def PolledAction : LinkAction → Prop
  | .tick _ => True
  | .sender stat _ => stat = 0
  | _ => False

/-- What holds at a point of the call, for the status, `wi` and the loop counter. -/
def AtPoint (packet : Bytes) (bus : Bus) : Option SendPoint → Prop
  | some .entry | some .checked => bus.status = .idle
  | some .statusSet | some .activityUpdated | some .started => bus.status = .sending
  | some (.loopHead i) => bus.status = .sending ∧ i ≤ packet.length ∧ (bus.wi = -1 ↔ i = 0)
  | some (.assignWi i) => bus.status = .sending ∧ i < packet.length
  | some (.callSend i) | some (.inSend i) | some (.inReceive i) =>
    bus.status = .sending ∧ i < packet.length ∧ bus.wi ≠ -1
  | none => bus.status = .sending ∧ (bus.wi = -1 ↔ packet = [])
  | _ => False

/-- The events of the call so far. -/
def startEvents (call : Option (Bytes × SendPoint)) : List UartbusEvent :=
  match call with
  | some (_, point) => if afterStart point then [.sendStart] else []
  | none => [.sendStart]

/-- A call of `ub_send_packet` that began in the state `n₀`. -/
structure PolledInv (n₀ : Node) (packet : Bytes) (n : Node) : Prop where
  setup : SameSetup n₀.bus n.bus
  size : n.bus.toSendSize = n₀.bus.toSendSize
  last : n.bus.lastBusActivity < 2 ^ 32
  packet_eq : ∀ p point, n.sender = some (p, point) → p = packet
  at_point : AtPoint packet n.bus (n.sender.map Prod.snd)
  shown : ∃ l, n.obs = n₀.obs ++ l ∧ eventsOf l = startEvents n.sender

section Step

variable {n₀ n : Node} {packet : Bytes}

/-- A step of the call to the point `q`, with what it stores and shows. -/
theorem PolledInv.move (h : PolledInv n₀ packet n) (hs : n.sender = some (packet, point))
    {bus : Bus} {obs : List Observation} (hsetup : SameSetup n.bus bus)
    (hsize : bus.toSendSize = n.bus.toSendSize)
    (hlast : bus.lastBusActivity = n.bus.lastBusActivity ∨ bus.lastBusActivity = n.now)
    (hpoint : AtPoint packet bus (some q))
    (hevents : startEvents (some (packet, point)) ++ eventsOf obs =
      startEvents (some (packet, q))) :
    PolledInv n₀ packet ((n.emit (bus, obs)).moveTo packet q) := by
  obtain ⟨l, hobs, hl⟩ := h.shown
  refine ⟨⟨hsetup.1.trans h.setup.1, hsetup.2.1.trans h.setup.2.1, hsetup.2.2.trans h.setup.2.2⟩,
    hsize.trans h.size, ?_, ?_, hpoint, l ++ obs, ?_, ?_⟩
  · rcases hlast with heq | heq
    · simpa only [moveTo_bus, emit_bus, heq] using h.last
    · simpa only [moveTo_bus, emit_bus, heq] using now_lt n
  · intro p pt hp
    cases hp
    rfl
  · rw [moveTo_obs, emit_obs, hobs, List.append_assoc]
  · rw [eventsOf_append, hl, hs]
    exact hevents

/-- A step that only moves on. -/
theorem PolledInv.stay (h : PolledInv n₀ packet n) (hs : n.sender = some (packet, point))
    (hpoint : AtPoint packet n.bus (some q))
    (hevents : startEvents (some (packet, point)) = startEvents (some (packet, q))) :
    PolledInv n₀ packet (n.moveTo packet q) := by
  rw [moveTo_eq_emit_moveTo]
  exact h.move hs ⟨rfl, rfl, rfl⟩ rfl (.inl rfl) hpoint 
    ((List.append_nil _).trans hevents)

/-- The call returns behind its loop. -/
theorem PolledInv.leave (h : PolledInv n₀ packet n) (hs : n.sender = some (packet, point))
    (hstart : afterStart point = true) (v : ℤ) (hpoint : AtPoint packet n.bus none) :
    PolledInv n₀ packet (n.leave v) := by
  obtain ⟨l, hobs, hl⟩ := h.shown
  refine ⟨h.setup, h.size, h.last, ?_, hpoint, l ++ [.returned v], ?_, ?_⟩
  · intro p pt hp
    cases hp
  · rw [leave_obs, hobs, List.append_assoc]
  · rw [eventsOf_append, hl, hs]
    simp [startEvents, hstart, eventsOf]

/-- A move inside of `ub_send_packet` without interrupts. -/
theorem PolledInv.sendStep (h : PolledInv n₀ packet n) (hpolled : n₀.bus.interrupt = false)
    (hs : n.sender = some (packet, point)) (rand : UInt8) :
    PolledInv n₀ packet (n.sendStep packet 0 rand point) := by
  have hpoll : n.bus.interrupt = false := h.setup.interrupt.trans hpolled
  have hpt := h.at_point
  rw [hs] at hpt
  have hcase := sendStep_case n packet 0 rand point
  generalize n.sendStep packet 0 rand point = m at hcase ⊢
  cases hcase with
  | accepts hidle => exact h.move hs ⟨rfl, rfl, rfl⟩ rfl (.inl rfl) hidle rfl
  | setsStatus => exact h.move hs ⟨rfl, rfl, rfl⟩ rfl (.inl rfl) rfl rfl
  | storesTime => exact h.move hs ⟨rfl, rfl, rfl⟩ rfl (.inr rfl) hpt rfl
  | starts => exact h.move hs ⟨rfl, rfl, rfl⟩ rfl (.inl rfl) hpt rfl
  | clearsWi =>
    exact h.move hs ⟨rfl, rfl, rfl⟩ rfl (.inl rfl) ⟨hpt, Nat.zero_le _, by simp⟩ rfl
  | polledNext i hi hlt => exact h.stay hs ⟨hpt.1, hlt⟩ rfl
  | polledEnd i hi hge =>
    obtain ⟨hsending, hle, hwi⟩ := hpt
    refine h.leave hs rfl 0 ⟨hsending, hwi.trans ?_⟩
    rw [← List.length_eq_zero_iff]
    omega
  | expects i =>
    obtain ⟨hsending, hi⟩ := hpt
    refine h.move hs ⟨rfl, rfl, rfl⟩ rfl (.inl rfl) ⟨hsending, hi, ?_⟩ rfl
    simp only
    omega
  | passes i => exact h.move hs ⟨rfl, rfl, rfl⟩ rfl (.inl rfl) hpt rfl
  | reads i => exact h.stay hs hpt rfl
  | received i =>
    obtain ⟨hsending, hi, hwi⟩ := hpt
    exact h.stay hs ⟨hsending, hi, iff_of_false hwi (Nat.succ_ne_zero i)⟩ rfl
  | busy hne => exact absurd hpt hne
  | fails i hstat => exact absurd rfl hstat
  | polls i hi | sent i hstat hi =>
    rw [hpoll] at hi
    cases hi
  | stillSending | stopped | unechoed | echoed | updates | collided | next | complete =>
    exact hpt.elim

theorem PolledInv.step (h : PolledInv n₀ packet n) (hpolled : n₀.bus.interrupt = false)
    {n' : Node} {a : LinkAction} (ha : PolledAction a) (hstep : step n a = some n') :
    PolledInv n₀ packet n' := by
  cases step_case hstep with
  | tick us => exact ⟨h.setup, h.size, h.last, h.packet_eq, h.at_point, h.shown⟩
  | sender stat rand p point hs =>
    obtain rfl : stat = 0 := ha
    obtain rfl := h.packet_eq p point hs
    exact h.sendStep hpolled hs rand
  | recByte data | predict | update rand | prewait cycles | send p hnone
  | manage received rand hook hnone => exact ha.elim

end Step

theorem polledInv_entry (hs : n.sender = some (packet, .entry)) (hidle : n.bus.status = .idle)
    (hlast : n.bus.lastBusActivity < 2 ^ 32) : PolledInv n packet n := by
  refine ⟨⟨rfl, rfl, rfl⟩, rfl, hlast, ?_, ?_, [], (List.append_nil _).symm, ?_⟩
  · intro p point hp
    rw [hs] at hp
    cases hp
    rfl
  · rw [hs]
    exact hidle
  · rw [hs]
    rfl

/-! ## The call returns -/

/-- Steps of the call lead to a state without it. -/
def PolledReturns (n : Node) : Prop :=
  ∃ acts m, (∀ a ∈ acts, PolledAction a) ∧ run step n acts = some m ∧ m.sender = none

theorem PolledReturns.of_sender (hs : n.sender = some (packet, point))
    (h : PolledReturns (n.sendStep packet 0 0 point)) : PolledReturns n := by
  obtain ⟨acts, m, hacts, hrun, hnone⟩ := h
  refine ⟨.sender 0 0 :: acts, m, List.forall_mem_cons.mpr ⟨rfl, hacts⟩, ?_, hnone⟩
  refine (run_cons_eq_some step n m _ acts).mpr ⟨_, ?_, hrun⟩
  simp only [step, hs]

/-- The loop ends; the induction is on the bytes that are left. -/
theorem polledReturns_loopHead {i : ℕ} (hpoll : n.bus.interrupt = false)
    (hs : n.sender = some (packet, .loopHead i)) : PolledReturns n := by
  induction hk : packet.length - i generalizing n i with
  | zero =>
    apply PolledReturns.of_sender hs
    simp only [Node.sendStep]
    rw [if_neg (by simp [hpoll]), if_neg (by omega)]
    exact ⟨[], _, List.forall_mem_nil _, rfl, rfl⟩
  | succ k ih =>
    apply PolledReturns.of_sender hs
    simp only [Node.sendStep]
    rw [if_neg (by simp [hpoll]), if_pos (by omega)]
    -- one byte: `wi`, `do_send_byte`, `do_receive_byte`, and the next round
    refine PolledReturns.of_sender rfl
      (PolledReturns.of_sender rfl (PolledReturns.of_sender rfl ?_))
    have hreceive : ∀ m : Node, m.bus.interrupt = false →
        m.sendStep packet 0 0 (.inSend i) = m.moveTo packet (.inReceive i) := by
      intro m hm
      simp [Node.sendStep, hm]
    refine (hreceive _ ?_).symm ▸ PolledReturns.of_sender rfl (ih ?_ rfl (by omega)) <;> exact hpoll

theorem polledReturns_entry (hpoll : n.bus.interrupt = false)
    (hs : n.sender = some (packet, .entry)) (hidle : n.bus.status = .idle) : PolledReturns n := by
  apply PolledReturns.of_sender hs
  simp only [Node.sendStep]
  rw [if_neg (not_not.mpr hidle)]
  exact PolledReturns.of_sender rfl <| PolledReturns.of_sender rfl <| PolledReturns.of_sender rfl <|
    PolledReturns.of_sender rfl (polledReturns_loopHead hpoll rfl)

/-! ## The end of the transmission -/

/-- The call that began in the state `n` has returned, and the slice is exceeded: the next
`ub_out_update_state` ends the transmission. -/
structure PolledEnd (n : Node) (acts : List LinkAction) (m : Node) : Prop where
  quiet : ∀ a ∈ acts, PolledAction a
  runs : run step n acts = some m
  returned : m.sender = none
  exceeded : m.bus.isSliceExceed m.now = true

/-- The transmission that began in the state `n` is over: the packet is cleared, and the events
are its start and its end. -/
def CompletedOnce (n m : Node) : Prop :=
  m.bus.toSendSize = 0 ∧ m.bus.status = .fairwait ∧
    ∃ l, m.obs = n.obs ++ l ∧ eventsOf l = [.sendStart, .sendEnd]

/-- The update behind the call takes only an empty packet as sent. -/
theorem completedOnce_iff {m : Node} (h : PolledInv n packet m) (hnone : m.sender = none)
    (he : m.bus.isSliceExceed m.now = true) (rand : UInt8) :
    CompletedOnce n (m.update rand) ↔ packet = [] := by
  obtain ⟨l, hobs, hl⟩ := h.shown
  have hpt := h.at_point
  rw [hnone] at hl hpt
  obtain ⟨hsending, hwi⟩ := hpt
  rw [← hwi]
  unfold CompletedOnce Node.update
  rw [emit_bus, emit_obs]
  have hcase := update_case m.bus m.now rand
  generalize (m.bus.ubOutUpdateState m.now rand).1 = bus,
    (m.bus.ubOutUpdateState m.now rand).2 = obs at hcase ⊢
  cases hcase with
  | success wi hst hwi' he' =>
    refine iff_of_true ⟨rfl, rfl, l ++ [.cleared, .event .sendEnd], ?_, ?_⟩ hwi'
    · rw [hobs, List.append_assoc]
    · rw [eventsOf_append, hl]
      rfl
  | missed hst hwi' he' =>
    refine iff_of_false ?_ hwi'
    rintro ⟨-, hstatus, -⟩
    cases hstatus
  | unchanged hor =>
    rcases hor with hst | hno
    · rw [hsending] at hst
      cases hst
    · rw [he] at hno
      cases hno
  | connect hor he' =>
    rw [hsending] at hor
    rcases hor with hst | hst <;> cases hst
  | endWait hst he' | endReceive wi hst he' | endCollision wi hst he' =>
    rw [hsending] at hst
    cases hst

/-- **Polled sending.**  Without interrupt reads, a call of `ub_send_packet` on an idle bus
returns when every `do_send_byte` returns 0 and no other byte arrives, and the transmission is
completed once the slice is exceeded exactly when the packet is empty.
SOURCE: ub.c:200-216, 315-353, 425-503; ub_arduino.cpp:69-97 -/
theorem polled_send_completes_iff (n : Node) (packet : List UInt8)
    (hpolled : n.bus.interrupt = false) (hs : n.sender = some (packet, .entry))
    (hidle : n.bus.status = .idle) (hbyte : n.bus.byteTimeUs < 2 ^ 16)
    (htimeout : n.bus.packetTimeout < 256) (hlast : n.bus.lastBusActivity < 2 ^ 32) :
    (∃ acts m, PolledEnd n acts m) ∧
      ∀ acts m rand, PolledEnd n acts m → (CompletedOnce n (m.update rand) ↔ packet = []) := by
  have hinv : ∀ {acts : List LinkAction} {m : Node}, (∀ a ∈ acts, PolledAction a) →
      run step n acts = some m → PolledInv n packet m := fun hacts hrun =>
    run_invariant_mem (fun _ _ _ hm ha hstep => hm.step hpolled ha hstep)
      (polledInv_entry hs hidle hlast) hacts hrun
  constructor
  · obtain ⟨acts, m, hacts, hrun, hnone⟩ := polledReturns_entry hpolled hs hidle
    have hm := hinv hacts hrun
    obtain ⟨us, hus⟩ := exists_sliceExceed (hm.setup.2.1 ▸ hbyte) (hm.setup.2.2 ▸ htimeout)
      hm.last m.time
    refine ⟨acts ++ [.tick us], { m with time := m.time + us }, ?_, ?_, hnone, hus⟩
    · exact List.forall_mem_append.mpr ⟨hacts, List.forall_mem_singleton.mpr trivial⟩
    · exact run_append_eq_some hrun rfl
  · intro acts m rand hend
    exact completedOnce_iff (hinv hend.quiet hend.runs) hend.returned hend.exceeded rand

/-- A node with the configuration of the Arduino library, about to send a packet. -/
def polledNode (packet : Bytes) : Node :=
  { Node.init 10 3 cfgFairwaitAfterSendHigh (-1) 100 with
    bus := { (Node.init 10 3 cfgFairwaitAfterSendHigh (-1) 100).bus with status := .idle }
    sender := some (packet, .entry) }

/-- The byte 7, and the silence of three bytes behind it. -/
def polledByte : List LinkAction := List.replicate 11 (.sender 0 0) ++ [.tick 30]

/-- The call with an empty packet. -/
theorem polled_send_completes_empty :
    ∃ acts m, PolledEnd (polledNode []) acts m ∧ CompletedOnce (polledNode []) (m.update 0) := by
  have h := polled_send_completes_iff (polledNode []) [] (by decide) rfl rfl (by decide)
    (by decide) (by decide)
  obtain ⟨acts, m, hend⟩ := h.1
  exact ⟨acts, m, hend, (h.2 acts m 0 hend).mpr rfl⟩

/-- One byte, echoed in time, is followed by a collision and stays to be sent. -/
theorem polled_byte_collides :
    ∃ m, PolledEnd (polledNode [7]) polledByte m ∧ ¬ CompletedOnce (polledNode [7]) (m.update 0) ∧
      (m.update 0).bus.status = .collision ∧
      eventsOf (m.update 0).obs = [.sendStart, .collisionStart, .sendEnd] := by
  have hend : (run step (polledNode [7]) polledByte).map (fun m => (m.sender,
      m.bus.isSliceExceed m.now, (m.update 0).bus.status, eventsOf (m.update 0).obs)) =
        some (none, true, .collision, [.sendStart, .collisionStart, .sendEnd]) := by
    decide +kernel
  obtain ⟨m, hrun, hm⟩ := Option.map_eq_some_iff.mp hend
  simp only [Prod.mk.injEq] at hm
  obtain ⟨hnone, he, hstatus, hevents⟩ := hm
  refine ⟨m, ⟨?_, hrun, hnone, he⟩, ?_, hstatus, hevents⟩
  · refine List.forall_mem_append.mpr ⟨?_, List.forall_mem_singleton.mpr trivial⟩
    intro a ha
    obtain rfl := List.eq_of_mem_replicate ha
    rfl
  · rintro ⟨-, hfair, -⟩
    rw [hstatus] at hfair
    cases hfair

end Uartbus.Analysis
