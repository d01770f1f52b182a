import Mathlib.Logic.Relation
import Uartbus.Analysis.LinkCalls

/-!
# What the bus can still do

From every state of a node with interrupt reads, some course of events leads to a state without
a running `ub_send_packet` and with nothing left to send (`becomes_free`): the running call
returns when another byte than the expected one arrives (`returns`), the bus becomes idle when
it is silent (`becomes_idle`), and a packet whose bytes come back is sent (`becomes_sent`).

The events are those that every gateway has at any time (`BusMove`).
-/

set_option autoImplicit false

namespace Uartbus.Analysis

open Lib Interface Model

variable {n m : Node} {packet : Bytes} {point : SendPoint} {obs : List Observation} {bus : Bus}

/-- The clock goes on, a byte arrives, the connection is managed without `send_on_idle`, or
the running `ub_send_packet` makes a step in which `do_send_byte` returns 0. -/
inductive BusMove : Node → Node → Prop where
  | tick (n : Node) (us : ℕ) : BusMove n { n with time := n.time + us }
  | feed (n : Node) (b : UInt8) : BusMove n (n.feed b.toUInt16)
  | manage (n : Node) (h : n.sender = none) : BusMove n (n.manage [] 0 .null)
  | sender (n : Node) (packet : Bytes) (point : SendPoint)
      (h : n.sender = some (packet, point)) : BusMove n (n.sendStep packet 0 0 point)

/-- Moves of the bus lead from one node to the other. -/
def BusReaches : Node → Node → Prop := Relation.ReflTransGen BusMove

theorem BusReaches.trans {k : Node} (h : BusReaches n m) (h' : BusReaches m k) : BusReaches n k :=
  Relation.ReflTransGen.trans h h'

theorem BusMove.reaches (h : BusMove n m) : BusReaches n m :=
  Relation.ReflTransGen.single h

/-- A step of the running call with its result. -/
theorem busReaches_sender (hs : n.sender = some (packet, point))
    (h : n.sendStep packet 0 0 point = m) : BusReaches n m :=
  h ▸ (BusMove.sender n packet point hs).reaches

/-! ## A bus that works -/

/-- Interrupt reads, and times of the sizes the fields of `struct uartbus` have. -/
structure Working (n : Node) : Prop where
  interrupt : n.bus.interrupt = true
  byteTime_pos : 0 < n.bus.byteTimeUs
  byteTime_lt : n.bus.byteTimeUs < 2 ^ 16
  timeout_pos : 0 < n.bus.packetTimeout
  timeout_lt : n.bus.packetTimeout < 256
  last_lt : n.bus.lastBusActivity < 2 ^ 32

theorem now_lt (n : Node) : n.now < 2 ^ 32 := Nat.mod_lt _ (by decide)

theorem UpdateCase.last {bus' : Bus} {now : ℕ} (h : UpdateCase bus now bus' obs) :
    bus'.lastBusActivity = bus.lastBusActivity ∨ bus'.lastBusActivity = now := by
  cases h with
  | unchanged | missed | connect => exact .inl rfl
  | endWait | endReceive | success | endCollision => exact .inr rfl

theorem RecByteCase.last {bus' : Bus} {now : ℕ} {data : UInt16}
    (h : RecByteCase bus now data bus' obs) :
    bus'.lastBusActivity = bus.lastBusActivity ∨ bus'.lastBusActivity = now := by
  cases h with
  | outside => exact .inl rfl
  | polled | collides | disturbed | echoed | begins | inside => exact .inr rfl

theorem sendStep_last (n : Node) (packet : Bytes) (stat rand : UInt8) (point : SendPoint) :
    (n.sendStep packet stat rand point).bus.lastBusActivity = n.bus.lastBusActivity ∨
      (n.sendStep packet stat rand point).bus.lastBusActivity = n.now := by
  have hcase := sendStep_case n packet stat rand point
  generalize n.sendStep packet stat rand point = m at hcase ⊢
  cases hcase with
  | storesTime => exact .inr rfl
  | updates i => exact (update_case n.bus n.now rand).last
  | _ => exact .inl rfl

theorem sendStep_sameSetup (n : Node) (packet : Bytes) (stat rand : UInt8)
    (point : SendPoint) : SameSetup n.bus (n.sendStep packet stat rand point).bus := by
  rcases sendStep_quiet n packet stat rand point with ⟨i, rfl⟩ | hquiet
  · exact (update_case n.bus n.now rand).sameSetup
  · exact hquiet.setup

theorem Working.same (h : Working n) (hsetup : SameSetup n.bus m.bus)
    (hlast : m.bus.lastBusActivity = n.bus.lastBusActivity ∨ m.bus.lastBusActivity = n.now) :
    Working m := by
  have hinterrupt := hsetup.interrupt
  obtain ⟨-, hbyte, htimeout⟩ := hsetup
  refine ⟨by rw [hinterrupt]; exact h.interrupt, ?_, ?_, ?_, ?_, ?_⟩
  · rw [hbyte]; exact h.byteTime_pos
  · rw [hbyte]; exact h.byteTime_lt
  · rw [htimeout]; exact h.timeout_pos
  · rw [htimeout]; exact h.timeout_lt
  · rcases hlast with heq | heq
    · rw [heq]; exact h.last_lt
    · rw [heq]; exact now_lt n

theorem Working.feed (h : Working n) (data : UInt16) : Working (n.feed data) :=
  h.same (recByte_case n.bus n.now data).sameSetup (recByte_case n.bus n.now data).last

theorem Working.update (h : Working n) (rand : UInt8) : Working (n.update rand) :=
  h.same (update_case n.bus n.now rand).sameSetup (update_case n.bus n.now rand).last

theorem Working.sendStep (h : Working n) (packet : Bytes) (stat rand : UInt8)
    (point : SendPoint) : Working (n.sendStep packet stat rand point) :=
  h.same (sendStep_sameSetup n packet stat rand point) (sendStep_last n packet stat rand point)

theorem Working.manage (h : Working n) (hnone : n.sender = none)
    (received : Bytes) (rand : UInt8) (hook : Node.SendOnIdle) :
    Working (n.manage received rand hook) := by
  apply manage_induction (I := Working) hnone h
  · intro _ _ m b _ hm
    exact hm.feed b.toUInt16
  · intro m _ hm
    exact hm.update rand
  · intro m data size obs _ hm _
    exact hm.same ⟨rfl, rfl, rfl⟩ (.inl rfl)
  · intro m p _ hm
    exact hm.same ⟨rfl, rfl, rfl⟩ (.inl rfl)

/-- The bus goes on working. -/
theorem Working.reaches (h : Working n) (hreach : BusReaches n m) : Working m := by
  induction hreach with
  | refl => exact h
  | tail _ hmove ih =>
    cases hmove with
    | tick us => exact ih.same ⟨rfl, rfl, rfl⟩ (.inl rfl)
    | feed b => exact ih.feed b.toUInt16
    | manage hnone => exact ih.manage hnone [] 0 .null
    | sender packet point hs => exact ih.sendStep packet 0 0 point

/-! ## The running call returns -/

/-- The running call can return. -/
def Returns (n : Node) : Prop := ∃ m, BusReaches n m ∧ m.sender = none

theorem Returns.of_reaches (hreach : BusReaches n m) (h : Returns m) : Returns n := by
  obtain ⟨k, hk, hnone⟩ := h
  exact ⟨k, hreach.trans hk, hnone⟩

theorem Returns.of_sender (hs : n.sender = some (packet, point))
    (h : Returns (n.sendStep packet 0 0 point)) : Returns n :=
  h.of_reaches (busReaches_sender hs rfl)

/-- How many steps are left to the status check of the call. -/
def stepsLeft : SendPoint → ℕ
  | .statusCheck _ => 0
  | .pollStatus _ => 1
  | .loopHead _ | .pollUpdate _ => 2
  | .started | .pollWi _ | .inSend _ | .inReceive _ => 3
  | .activityUpdated | .callSend _ => 4
  | .statusSet | .assignWi _ => 5
  | .entry | .checked => 6

/-- A step of a call that has taken the bus, when the node is not sending any more: it returns at
its status check, and comes nearer to it everywhere else. -/
theorem sendStep_away (h : Working n) (haway : n.bus.status ≠ .sending)
    (hpoint : stepsLeft point < 6) (packet : Bytes) :
    (n.sendStep packet 0 0 point).sender = none ∨
      (n.sendStep packet 0 0 point).bus.status ≠ .sending ∧
        ∃ q, (n.sendStep packet 0 0 point).sender = some (packet, q) ∧
          stepsLeft q < stepsLeft point := by
  have hcase := sendStep_case n packet 0 0 point
  generalize n.sendStep packet 0 0 point = m at hcase ⊢
  cases hcase with
  | busy | collided | complete | fails => exact .inl rfl
  | accepts | setsStatus => exact absurd hpoint (lt_irrefl _)
  | stillSending i hs | next i hs => exact absurd hs haway
  | polledNext i hi | polledEnd i hi | reads i hstat hi =>
    rw [h.interrupt] at hi
    cases hi
  | updates i =>
    exact .inr ⟨(update_case n.bus n.now 0).ne_sending haway, _, rfl, Nat.lt_succ_self 1⟩
  | _ => exact .inr ⟨haway, _, rfl, by simp [stepsLeft]⟩

/-- Once the node has taken the bus, the call returns when the node is not sending any more. -/
theorem returns_away (h : Working n) (hs : n.sender = some (packet, point))
    (hpoint : stepsLeft point < 6) (haway : n.bus.status ≠ .sending) : Returns n := by
  induction hk : stepsLeft point using Nat.strong_induction_on generalizing n point with
  | _ k ih =>
    apply Returns.of_sender hs
    rcases sendStep_away h haway hpoint packet with hnone | ⟨haway', q, hq, hlt⟩
    · exact ⟨_, Relation.ReflTransGen.refl, hnone⟩
    · exact ih _ (hk ▸ hlt) (h.sendStep packet 0 0 point) hq (hlt.trans hpoint) haway' rfl

/-- Another byte than the expected one is a collision. -/
theorem exists_disturbance (h : Working n) (hs : n.bus.status = .sending) :
    ∃ b : UInt8, (n.feed b.toUInt16).bus.status = .collision := by
  have hcollision : ∀ b : UInt8, n.bus.wi ≠ b.toNat →
      (n.feed b.toUInt16).bus.status = .collision := by
    intro b hb
    have hbad : 255 < b.toNat ∨ ¬ n.bus.wi = b.toNat := .inr hb
    simp [Node.feed, Bus.ubOutRecByte, Bus.ubCheckAndHandleCollision, Bus.ubCollisionHappened,
      Bus.updateLastActivityNow, hs, h.interrupt, hbad]
  by_cases hzero : n.bus.wi = 0
  · exact ⟨1, hcollision 1 (by simp [hzero])⟩
  · exact ⟨0, hcollision 0 (by simpa using hzero)⟩

/-- **The running call can return.** -/
theorem returns (h : Working n) : Returns n := by
  -- when the call has taken the bus, a disturbance ends it
  have htaken : ∀ {m : Node} {packet : Bytes} {point : SendPoint}, Working m →
      m.sender = some (packet, point) → stepsLeft point < 6 → Returns m := by
    intro m packet point hm hs hpoint
    by_cases hsending : m.bus.status = .sending
    · obtain ⟨b, hb⟩ := exists_disturbance hm hsending
      have haway : (m.feed b.toUInt16).bus.status ≠ .sending := by
        rw [hb]
        simp
      exact (returns_away (hm.feed b.toUInt16) hs hpoint haway).of_reaches
        (BusMove.feed m b).reaches
    · exact returns_away hm hs hpoint hsending
  have hchecked : ∀ {m : Node} {packet : Bytes}, Working m →
      m.sender = some (packet, .checked) → Returns m := by
    intro m packet hm hs
    apply Returns.of_sender hs
    exact htaken (hm.sendStep packet 0 0 .checked) rfl (by decide)
  cases hs : n.sender with
  | none => exact ⟨n, Relation.ReflTransGen.refl, hs⟩
  | some call =>
    obtain ⟨packet, point⟩ := call
    cases point with
    | entry =>
      have hnext := h.sendStep packet 0 0 .entry
      apply Returns.of_sender hs
      simp only [Node.sendStep] at hnext ⊢
      split at hnext
      next hbusy =>
        rw [if_pos hbusy]
        exact ⟨_, Relation.ReflTransGen.refl, rfl⟩
      next hidle =>
        rw [if_neg hidle]
        exact hchecked hnext rfl
    | checked => exact hchecked h hs
    | _ => exact htaken h hs (by simp [stepsLeft])

/-! ## The bus becomes idle -/

/-- The slice is exceeded at some time from now on, for times of the sizes the fields have. -/
theorem exists_sliceExceed (hbyte : bus.byteTimeUs < 2 ^ 16) (htimeout : bus.packetTimeout < 256)
    (hlast : bus.lastBusActivity < 2 ^ 32) (time : ℕ) :
    ∃ us, bus.isSliceExceed ((time + us) % 2 ^ 32) = true := by
  set last := bus.lastBusActivity with hlastDef
  set slice := bus.byteTimeUs * bus.sliceCycles with hsliceDef
  have hcycles : bus.sliceCycles ≤ 255 := by
    unfold Bus.sliceCycles
    split <;> omega
  have hslice : slice ≤ 2 ^ 16 * 255 := Nat.mul_le_mul hbyte.le hcycles
  -- the clock wraps, and then shows one microsecond more than has passed
  set target := if last + slice < 2 ^ 32 then last + slice
    else last + slice + 1 - 2 ^ 32 with htarget
  refine ⟨target + 2 ^ 32 - time % 2 ^ 32, ?_⟩
  unfold Bus.isSliceExceed
  by_cases hwrap : last + slice < 2 ^ 32
  · rw [if_pos hwrap] at htarget
    rw [if_neg (by omega)]
    exact decide_eq_true (by omega)
  · rw [if_neg hwrap] at htarget
    rw [if_pos (by omega)]
    exact decide_eq_true (by omega)

/-- A node without a running call waits until the slice is exceeded and is managed. -/
theorem exists_round (h : Working n) (hnone : n.sender = none) :
    ∃ m now, BusReaches n m ∧ n.bus.isSliceExceed now = true ∧
      m.bus = (n.bus.ubOutUpdateState now 0).1 ∧
      (m.bus.status ≠ .idle ∨ m.bus.toSendSize = 0 → m.sender = none) ∧
      (m.bus.status = .idle → m.bus.toSendSize ≠ 0 →
        ∃ packet, m.sender = some (packet, .entry)) := by
  obtain ⟨us, hus⟩ := exists_sliceExceed h.byteTime_lt h.timeout_lt h.last_lt n.time
  set later : Node := { n with time := n.time + us } with hlater
  have hreach : BusReaches n (later.manage [] 0 .null) :=
    (BusMove.tick n us).reaches.trans (BusMove.manage later hnone).reaches
  have hinterrupt : later.bus.interrupt = true := h.interrupt
  have hcase := manage_case hinterrupt [] 0 .null
  generalize later.manage [] 0 .null = m at hreach hcase
  refine ⟨m, later.now, hreach, hus, ?_⟩
  cases hcase with
  | returned v hbusy =>
    refine ⟨rfl, fun _ => hnone, fun hidle hsize => ?_⟩
    exact absurd hbusy (not_or.mpr ⟨not_not.mpr hidle, hsize⟩)
  | resend hidle hsize =>
    refine ⟨rfl, fun hbusy => ?_, fun _ _ => ⟨_, rfl⟩⟩
    exact absurd hbusy (not_or.mpr ⟨not_not.mpr hidle, hsize⟩)
  | handOver data hhook | handEmpty data hhook => cases hhook

section Exceeded

variable {bus : Bus} {now : ℕ} (rand : UInt8)

theorem exceeded_waiting (he : bus.isSliceExceed now = true)
    (h : bus.status ≠ .receiving ∧ bus.status ≠ .collision ∧ bus.status ≠ .sending) :
    (bus.ubOutUpdateState now rand).1.status = .idle ∧
      (bus.ubOutUpdateState now rand).1.toSendSize = bus.toSendSize := by
  cases hs : bus.status <;> simp_all [Bus.ubOutUpdateState]

theorem exceeded_busy (he : bus.isSliceExceed now = true)
    (h : bus.status = .receiving ∨ bus.status = .collision) :
    (bus.ubOutUpdateState now rand).1.status = .fairwait ∧
      (bus.ubOutUpdateState now rand).1.toSendSize = bus.toSendSize := by
  rcases h with h | h <;> simp [Bus.ubOutUpdateState, he, h]

theorem exceeded_sending (he : bus.isSliceExceed now = true) (h : bus.status = .sending) :
    (bus.wi = -1 ∧ (bus.ubOutUpdateState now rand).1.status = .fairwait ∧
        (bus.ubOutUpdateState now rand).1.toSendSize = 0) ∨
      ((bus.ubOutUpdateState now rand).1.status = .collision ∧
        (bus.ubOutUpdateState now rand).1.toSendSize = bus.toSendSize) := by
  by_cases hwi : bus.wi = -1
  · left
    simp [Bus.ubOutUpdateState, he, h, hwi]
  · right
    simp [Bus.ubOutUpdateState, Bus.ubCollisionHappened, he, h, hwi]

end Exceeded

/-- The bus is idle, with nothing to send or at the start of sending what there was. -/
def IdleAfter (n m : Node) : Prop :=
  m.bus.status = .idle ∧ ((m.sender = none ∧ m.bus.toSendSize = 0) ∨
    (n.bus.toSendSize ≠ 0 ∧ ∃ packet, m.sender = some (packet, .entry)))

/-- **The bus can become idle.** -/
theorem becomes_idle (h : Working n) (hnone : n.sender = none) :
    ∃ m, BusReaches n m ∧ IdleAfter n m := by
  have hwaiting : ∀ {k : Node}, Working k → k.sender = none → k.bus.status ≠ .receiving ∧
      k.bus.status ≠ .collision ∧ k.bus.status ≠ .sending →
        ∃ m, BusReaches k m ∧ IdleAfter k m := by
    intro k hk hknone hstatus
    obtain ⟨m, now, hreach, he, hbus, hfree, hentry⟩ := exists_round hk hknone
    obtain ⟨hidle, hsize⟩ := exceeded_waiting 0 he hstatus
    rw [← hbus] at hidle hsize
    refine ⟨m, hreach, hidle, ?_⟩
    by_cases hzero : m.bus.toSendSize = 0
    · exact .inl ⟨hfree (.inr hzero), hzero⟩
    · exact .inr ⟨hsize ▸ hzero, hentry hidle hzero⟩
  -- a round that ends in fairwait is followed by one that ends idle
  have hthen : ∀ {k m : Node}, BusReaches k m → Working m → m.sender = none →
      m.bus.status = .fairwait → (m.bus.toSendSize ≠ 0 → k.bus.toSendSize ≠ 0) →
      ∃ m', BusReaches k m' ∧ IdleAfter k m' := by
    intro k m hreach hm hmnone hstatus hsize
    obtain ⟨m', hreach', hidle, hcase⟩ := hwaiting hm hmnone (by simp [hstatus])
    refine ⟨m', hreach.trans hreach', hidle, ?_⟩
    rcases hcase with hfree | ⟨hne, hentry⟩
    · exact .inl hfree
    · exact .inr ⟨hsize hne, hentry⟩
  have hbusy : ∀ {k : Node}, Working k → k.sender = none →
      k.bus.status = .receiving ∨ k.bus.status = .collision →
      ∃ m, BusReaches k m ∧ IdleAfter k m := by
    intro k hk hknone hstatus
    obtain ⟨m, now, hreach, he, hbus, hfree, -⟩ := exists_round hk hknone
    obtain ⟨hfair, hsize⟩ := exceeded_busy 0 he hstatus
    rw [← hbus] at hfair hsize
    exact hthen hreach (hk.reaches hreach) (hfree (.inl (by simp [hfair]))) hfair
      (by rw [hsize]; exact id)
  by_cases hsending : n.bus.status = .sending
  · obtain ⟨m, now, hreach, he, hbus, hfree, -⟩ := exists_round h hnone
    rcases exceeded_sending 0 he hsending with ⟨-, hfair, hsize⟩ | ⟨hcol, hsize⟩
    · rw [← hbus] at hfair hsize
      exact hthen hreach (h.reaches hreach) (hfree (.inl (by simp [hfair]))) hfair
        (fun hne => absurd hsize hne)
    · rw [← hbus] at hcol hsize
      obtain ⟨m', hreach', hidle, hcase⟩ :=
        hbusy (h.reaches hreach) (hfree (.inl (by simp [hcol]))) (.inr hcol)
      refine ⟨m', hreach.trans hreach', hidle, ?_⟩
      rcases hcase with hnothing | ⟨hne, hentry⟩
      · exact .inl hnothing
      · exact .inr ⟨hsize ▸ hne, hentry⟩
  · by_cases hstatus : n.bus.status = .receiving ∨ n.bus.status = .collision
    · exact hbusy h hnone hstatus
    · push Not at hstatus
      exact hwaiting h hnone ⟨hstatus.1, hstatus.2, hsending⟩

/-! ## A packet is sent -/

/-- The call is at the head of its loop, and everything before was echoed in time. -/
structure Looping (packet : Bytes) (i : ℕ) (n : Node) : Prop where
  sender : n.sender = some (packet, .loopHead i)
  status : n.bus.status = .sending
  wi : n.bus.wi = -1
  last : n.bus.lastBusActivity = n.now

/-- An idle bus is taken. -/
theorem reaches_looping (hs : n.sender = some (packet, .entry))
    (hidle : n.bus.status = .idle) : ∃ m, BusReaches n m ∧ Looping packet 0 m := by
  have haccept : n.sendStep packet 0 0 .entry =
      (n.emit (n.bus, [.accepted packet])).moveTo packet .checked := by
    simp only [Node.sendStep]
    rw [if_neg (by simpa using hidle)]
  refine ⟨_, (busReaches_sender hs haccept).trans <| (busReaches_sender rfl rfl).trans <|
    (busReaches_sender rfl rfl).trans <| (busReaches_sender rfl rfl).trans <|
    busReaches_sender rfl rfl, rfl, rfl, rfl, rfl⟩

section Loop

variable {stat rand : UInt8} {i : ℕ}

theorem sendStep_loopHead (hi : n.bus.interrupt = true) :
    n.sendStep packet stat rand (.loopHead i) = n.moveTo packet (.pollStatus i) := if_pos hi

theorem sendStep_pollStatus (hs : n.bus.status = .sending) :
    n.sendStep packet stat rand (.pollStatus i) = n.moveTo packet (.pollWi i) := if_pos hs

theorem sendStep_pollWi (hwi : n.bus.wi = -1) :
    n.sendStep packet stat rand (.pollWi i) = n.moveTo packet (.statusCheck i) :=
  if_neg (by simpa using hwi)

theorem sendStep_statusCheck (hs : n.bus.status = .sending) :
    n.sendStep packet stat rand (.statusCheck i) =
      if i < packet.length then n.moveTo packet (.assignWi i) else n.leave 0 :=
  if_neg (by simpa using hs)

/-- With nothing expected, the call goes from the head of the loop to its status check. -/
theorem Looping.statusCheck (h : Looping packet i n) (hw : Working n) :
    BusReaches n (n.moveTo packet (.statusCheck i)) := by
  have hstatus : (n.moveTo packet (.pollStatus i)).bus.status = .sending := h.status
  have hwi : (n.moveTo packet (.pollWi i)).bus.wi = -1 := h.wi
  exact (busReaches_sender h.sender (sendStep_loopHead hw.interrupt)).trans <|
    (busReaches_sender rfl (sendStep_pollStatus hstatus)).trans
      (busReaches_sender rfl (sendStep_pollWi hwi))

end Loop

/-- The echo of an expected byte, at once. -/
theorem feed_echo (hw : Working n) (hs : n.bus.status = .sending) {b : UInt8}
    (hwi : n.bus.wi = b.toNat) (hlast : n.bus.lastBusActivity = n.now) :
    (n.feed b.toUInt16).bus = { n.bus with wi := -1, lastBusActivity := n.now } := by
  have hbyte : ¬ (255 < b.toNat ∨ ¬ n.bus.wi = b.toNat) := by
    have := b.toNat_lt
    omega
  have hintime : n.bus.isSliceExceed n.now = false := by
    have hpos : 0 < n.bus.byteTimeUs * n.bus.packetTimeout :=
      Nat.mul_pos hw.byteTime_pos hw.timeout_pos
    have hcycles : n.bus.sliceCycles = n.bus.packetTimeout := by simp [Bus.sliceCycles, hs]
    unfold Bus.isSliceExceed
    simp only [hlast, lt_irrefl, if_false, Nat.sub_self, hcycles]
    exact decide_eq_false (by omega)
  simp [Node.feed, Bus.ubOutRecByte, Bus.ubCheckAndHandleCollision, Bus.updateLastActivityNow, hs,
    hw.interrupt, hbyte, hintime]

/-- One round of the loop, with the echo of the byte. -/
theorem Looping.next {i : ℕ} (h : Looping packet i n)
    (hw : Working n) (hi : i < packet.length) :
    ∃ m, BusReaches n m ∧ Looping packet (i + 1) m := by
  have hstatus : (n.moveTo packet (.statusCheck i)).bus.status = .sending := h.status
  have hcheck : (n.moveTo packet (.statusCheck i)).sendStep packet 0 0 (.statusCheck i) =
      n.moveTo packet (.assignWi i) :=
    (sendStep_statusCheck hstatus).trans (if_pos hi)
  -- inside `do_send_byte`
  obtain ⟨k, hk⟩ : ∃ k, k =
      ((n.moveTo packet (.assignWi i)).sendStep packet 0 0 (.assignWi i)).sendStep
      packet 0 0 (.callSend i) := ⟨_, rfl⟩
  have hreach : BusReaches n k := (h.statusCheck hw).trans <|
    (busReaches_sender rfl hcheck).trans <|
    (busReaches_sender rfl rfl).trans (busReaches_sender rfl hk.symm)
  have hkw : Working k := hw.reaches hreach
  have hks : k.sender = some (packet, .inSend i) := by rw [hk]; rfl
  have hkstatus : k.bus.status = .sending := by rw [hk]; exact h.status
  have hkwi : k.bus.wi = (packet.getD i 0).toNat := by rw [hk]; rfl
  have hklast : k.bus.lastBusActivity = k.now := by rw [hk]; exact h.last
  have hecho := feed_echo hkw hkstatus hkwi hklast
  have hreturn : (k.feed (packet.getD i 0).toUInt16).sendStep packet 0 0 (.inSend i) =
      (k.feed (packet.getD i 0).toUInt16).moveTo packet (.loopHead (i + 1)) := by
    have hinterrupt := (hkw.feed (packet.getD i 0).toUInt16).interrupt
    simp only [Node.sendStep, ne_eq, not_true_eq_false, if_false, hinterrupt, if_true]
  refine ⟨_, hreach.trans <| (BusMove.feed k _).reaches.trans (busReaches_sender hks hreturn),
    rfl, ?_, ?_, ?_⟩
  · rw [moveTo_bus, hecho]
    exact hkstatus
  · rw [moveTo_bus, hecho]
  · rw [moveTo_bus, hecho]
    rfl

/-- The rest of the packet is sent and the call returns. -/
theorem Looping.returned {i : ℕ} (h : Looping packet i n)
    (hw : Working n) (hi : i ≤ packet.length) :
    ∃ m, BusReaches n m ∧ m.sender = none ∧ m.bus.status = .sending ∧ m.bus.wi = -1 := by
  induction hk : packet.length - i generalizing n i with
  | zero =>
    have hstatus : (n.moveTo packet (.statusCheck i)).bus.status = .sending := h.status
    have hleave : (n.moveTo packet (.statusCheck i)).sendStep packet 0 0 (.statusCheck i) =
        (n.moveTo packet (.statusCheck i)).leave 0 :=
      (sendStep_statusCheck hstatus).trans (if_neg (by omega))
    exact ⟨_, (h.statusCheck hw).trans (busReaches_sender rfl hleave), rfl, h.status, h.wi⟩
  | succ k ih =>
    obtain ⟨m, hreach, hm⟩ := h.next hw (by omega)
    obtain ⟨m', hreach', hm'⟩ := ih hm (hw.reaches hreach) (by omega) (by omega)
    exact ⟨m', hreach.trans hreach', hm'⟩

/-- **A packet can be sent.** -/
theorem becomes_sent (h : Working n)
    (hs : n.sender = some (packet, .entry)) (hidle : n.bus.status = .idle) :
    ∃ m, BusReaches n m ∧ m.sender = none ∧ m.bus.toSendSize = 0 := by
  obtain ⟨k, hk, hlooping⟩ := reaches_looping hs hidle
  have hkw := h.reaches hk
  obtain ⟨m, hm, hmnone, hmstatus, hmwi⟩ := hlooping.returned hkw (Nat.zero_le _)
  have hmw := hkw.reaches hm
  obtain ⟨m', now, hm', he, hbus, hfree, -⟩ := exists_round hmw hmnone
  rcases exceeded_sending 0 he hmstatus with ⟨-, hfair, hsize⟩ | ⟨hcol, -⟩
  · rw [← hbus] at hsize
    exact ⟨m', hk.trans (hm.trans hm'), hfree (.inr hsize), hsize⟩
  · simp [Bus.ubOutUpdateState, he, hmstatus, hmwi] at hcol

/-- **The bus can become free.** -/
theorem becomes_free (h : Working n) :
    ∃ m, BusReaches n m ∧ m.sender = none ∧ m.bus.toSendSize = 0 := by
  obtain ⟨k, hk, hknone⟩ := returns h
  have hkw := h.reaches hk
  obtain ⟨m, hm, hidle, hcase⟩ := becomes_idle hkw hknone
  rcases hcase with ⟨hnone, hsize⟩ | ⟨-, packet, hentry⟩
  · exact ⟨m, hk.trans hm, hnone, hsize⟩
  · obtain ⟨m', hm', hfree⟩ := becomes_sent (hkw.reaches hm) hentry hidle
    exact ⟨m', hk.trans (hm.trans hm'), hfree⟩

end Uartbus.Analysis
