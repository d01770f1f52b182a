import Uartbus.Analysis.LinkProgress
import Uartbus.Analysis.SendEcho
import Uartbus.Model.Host

/-!
# Retransmissions of the bootloader host

`send_on_idle` hands the buffer `send_data` to the bus and marks it as free, although the bus
goes on reading it until the packet is sent.  In every run in which `send_packet_priv` does not
store into the buffer while the bus has something to send, every transmission attempt repeats
the bytes that were handed over (`attempts_repeat`); otherwise it sends what was stored later
(`attempt_changed`).

The invariant has two parts: the buffer holds the pending packet (`HostInv.pending`), and a
running call that can still pass bytes on passes those of the pending packet (`Transmits`).
-/

set_option autoImplicit false

namespace Uartbus.Analysis

open Lib Interface Model

variable {l obs : List Observation} {h : Host} {q : SendPoint} {build : HostBuild} {node : Node}
  {bus : Bus}

/-- The attempt sends the bytes that were handed over, and all of them when it succeeds. -/
def Repeats (a : Attempt) : Prop :=
  a.passed <+: a.handed ∧ (a.complete = true → a.passed = a.handed)

/-! ## Recording -/

/-- An observation that belongs to no attempt. -/
def Silent : Observation → Prop
  | .accepted _ | .passed _ | .returned _ => False
  | _ => True

theorem recordOne_silent {o : Observation} (ho : Silent o) (handed : Bytes)
    (attempts : List Attempt) : Host.recordOne handed attempts o = attempts := by
  cases o <;> first | rfl | exact ho.elim

theorem foldl_recordOne_silent (hl : ∀ o ∈ l, Silent o) (handed : Bytes)
    (attempts : List Attempt) : l.foldl (Host.recordOne handed) attempts = attempts := by
  induction l with
  | nil => rfl
  | cons o l ih =>
    rw [List.foldl_cons, recordOne_silent (hl o List.mem_cons_self)]
    exact ih fun o' ho' => hl o' (List.mem_cons_of_mem o ho')

theorem follow_attempts (hobs : node.obs = h.node.obs ++ l) :
    (h.follow node).attempts = l.foldl (Host.recordOne h.handed) h.attempts := by
  simp [Host.follow, hobs]

theorem follow_silent (hobs : node.obs = h.node.obs ++ l) (hl : ∀ o ∈ l, Silent o) :
    h.follow node = { h with node := node } := by
  have hattempts := follow_attempts hobs
  rw [foldl_recordOne_silent hl] at hattempts
  unfold Host.follow at *
  simp only at hattempts
  rw [hattempts]

/-- A call that returns something else than 0 changes no attempt. -/
theorem recordOne_returned_ne {v : ℤ} (hv : v ≠ 0) (handed : Bytes)
    (attempts : List Attempt) : Host.recordOne handed attempts (.returned v) = attempts := by
  simp only [Host.recordOne]
  cases hlast : attempts.getLast? with
  | none => rfl
  | some a =>
    obtain ⟨earlier, rfl⟩ := List.getLast?_eq_some_iff.mp hlast
    simp [hv]

theorem RecByteCase.silent {bus' : Bus} {now : ℕ} {data : UInt16}
    (h : RecByteCase bus now data bus' obs) : ∀ o ∈ obs, Silent o := by
  intro o ho
  have hneutral : ∀ o ∈ collisionData bus data ++ [.fed data], Silent o := by
    intro o ho
    unfold collisionData at ho
    split at ho <;> simp only [List.nil_append, List.cons_append, List.mem_cons,
      List.not_mem_nil, or_false] at ho
    · subst ho; trivial
    · rcases ho with rfl | rfl <;> trivial
  cases h with
  | polled | echoed => rw [List.mem_singleton.mp ho]; trivial
  | disturbed => exact hneutral o ho
  | collides =>
    rcases List.mem_append.mp ho with hevent | hrest
    · simp only [List.mem_cons, List.not_mem_nil, or_false] at hevent
      rcases hevent with rfl | rfl <;> trivial
    · exact hneutral o hrest
  | begins | outside | inside =>
    simp only [List.mem_cons, List.not_mem_nil, or_false] at ho
    rcases ho with rfl | rfl | rfl <;> trivial

theorem UpdateCase.silent {bus' : Bus} {now : ℕ} (h : UpdateCase bus now bus' obs) :
    ∀ o ∈ obs, Silent o := by
  intro o ho
  cases h with
  | unchanged | endWait | connect => cases ho
  | endReceive | endCollision => rw [List.mem_singleton.mp ho]; trivial
  | missed | success =>
    simp only [List.mem_cons, List.not_mem_nil, or_false] at ho
    rcases ho with rfl | rfl <;> trivial

/-! ## The invariant -/

/-- The call has the bus, or is about to take it. -/
def Live (h : Host) (point : SendPoint) : Prop :=
  h.node.bus.status = .sending ∨ point = .checked

/-- What the running call has passed on, and what it will pass on. -/
structure Transmits (h : Host) (packet : Bytes) (point : SendPoint) : Prop where
  current : ∃ earlier passed, h.attempts = earlier ++ [⟨h.handed, passed, false⟩] ∧
    passed <+: h.handed ∧ (Live h point → passed = h.handed.take (handed point))
  live : Live h point → packet = h.handed ∧ h.node.bus.toSendSize ≠ 0
  inner : ∀ i, point = .assignWi i ∨ point = .callSend i →
    h.node.bus.status = .sending ∧ i < packet.length

structure HostInv (h : Host) : Prop where
  interrupt : h.node.bus.interrupt = true
  pending : h.node.bus.toSendSize ≠ 0 →
    h.node.bus.toSendSize = h.handed.length ∧ h.node.bus.toSend.take h.handed.length = h.handed ∧
      h.send.sendData.take h.handed.length = h.handed
  repeats : ∀ a ∈ h.attempts, Repeats a
  entry : ∀ packet, h.node.sender = some (packet, .entry) →
    packet = h.handed ∧ h.node.bus.toSendSize ≠ 0
  running : ∀ packet point, h.node.sender = some (packet, point) → point ≠ .entry →
    Transmits h packet point

/-- Without a running call. -/
theorem HostInv.of_none (hnone : h.node.sender = none) (hinterrupt : h.node.bus.interrupt = true)
    (hpending : h.node.bus.toSendSize ≠ 0 →
      h.node.bus.toSendSize = h.handed.length ∧ h.node.bus.toSend.take h.handed.length = h.handed ∧
        h.send.sendData.take h.handed.length = h.handed) (hrepeats : ∀ a ∈ h.attempts, Repeats a) :
    HostInv h := by
  refine ⟨hinterrupt, hpending, hrepeats, ?_, ?_⟩
  · intro packet hs
    rw [hnone] at hs
    cases hs
  · intro packet point hs
    rw [hnone] at hs
    cases hs

/-- The condition on a step: `send_packet_priv` refuses, or the bus has nothing to send. -/
def KeepsBuffer (build : HostBuild) (h : Host) : HostAction → Prop
  | .sendPacketPriv _ _ data => h.send.Refuses build data ∨ h.node.bus.toSendSize = 0
  | _ => True

instance (build : HostBuild) (h : Host) (a : HostAction) : Decidable (KeepsBuffer build h a) := by
  cases a <;> unfold KeepsBuffer <;> infer_instance

section Between

variable {h : Host} (hI : HostInv h) (hb : h.node.between = true)
include hI hb

/-- A call from outside `ub_send_packet`: it starts no transmission and touches the pending
packet only by ending it. -/
theorem HostInv.outside (hsender : node.sender = h.node.sender)
    (hsetup : SameSetup h.node.bus node.bus) (htoSend : node.bus.toSend = h.node.bus.toSend)
    (hsize : node.bus.toSendSize = h.node.bus.toSendSize ∨ node.bus.toSendSize = 0)
    (hstatus : node.bus.status = .sending →
      h.node.bus.status = .sending ∧ node.bus.toSendSize = h.node.bus.toSendSize)
    (hobs : node.obs = h.node.obs ++ l) (hl : ∀ o ∈ l, Silent o) : HostInv (h.follow node) := by
  rw [follow_silent hobs hl]
  refine ⟨by rw [hsetup.interrupt]; exact hI.interrupt, ?_, hI.repeats, ?_, ?_⟩
  · intro hne
    have hsame : node.bus.toSendSize = h.node.bus.toSendSize := hsize.resolve_right hne
    simp only [hsame, htoSend] at hne ⊢
    exact hI.pending hne
  · intro packet hs
    exact absurd hb (by simp [between_of_some (hsender ▸ hs), SendPoint.interruptible])
  · intro packet point hs hpt
    have hold := hI.running packet point (hsender ▸ hs) hpt
    have hint : point.interruptible = true := between_of_some (hsender ▸ hs) ▸ hb
    have hback : Live { h with node := node } point → Live h point ∧
        node.bus.toSendSize = h.node.bus.toSendSize := by
      rintro (hsending | rfl)
      · obtain ⟨hst, hsz⟩ := hstatus hsending
        exact ⟨.inl hst, hsz⟩
      · cases hint
    obtain ⟨earlier, passed, hattempts, hprefix, hexact⟩ := hold.current
    refine ⟨⟨earlier, passed, hattempts, hprefix, fun hlive => hexact (hback hlive).1⟩, ?_, ?_⟩
    · intro hlive
      obtain ⟨hlive', hsz⟩ := hback hlive
      obtain ⟨hpacket, hne⟩ := hold.live hlive'
      exact ⟨hpacket, by simpa only [hsz] using hne⟩
    · rintro i (rfl | rfl) <;> cases hint

theorem HostInv.update (rand : UInt8) : HostInv (h.follow (h.node.update rand)) := by
  have hcase := update_case h.node.bus h.node.now rand
  refine hI.outside hb rfl hcase.sameSetup hcase.toSend_eq.1 hcase.toSend_eq.2 ?_ (emit_obs _ _)
    hcase.silent
  intro hsending
  have heq : (h.node.update rand).bus = h.node.bus := hcase.eq_of_sending hsending
  rw [heq] at hsending ⊢
  exact ⟨hsending, rfl⟩

theorem HostInv.feed (data : UInt16) : HostInv (h.follow (h.node.feed data)) := by
  have hcase := recByte_case h.node.bus h.node.now data
  refine hI.outside hb rfl hcase.sameSetup hcase.toSend_eq.1 (.inl hcase.toSend_eq.2) ?_
    (emit_obs _ _) hcase.silent
  intro hsending
  refine ⟨?_, hcase.toSend_eq.2⟩
  by_contra haway
  exact hcase.ne_sending haway hsending

theorem HostInv.predict :
    HostInv (h.follow (h.node.emit (h.node.bus.ubPredictTransmissionStart h.node.now))) := by
  unfold Bus.ubPredictTransmissionStart
  split
  · exact hI.outside hb rfl ⟨rfl, rfl, rfl⟩ rfl (.inl rfl)
      (by simp) (emit_obs _ _)
      (List.forall_mem_singleton.mpr trivial)
  · exact hI.outside hb rfl ⟨rfl, rfl, rfl⟩ rfl (.inl rfl) (fun hsending => ⟨hsending, rfl⟩)
      (emit_obs _ _) (List.forall_mem_nil _)

theorem HostInv.tick (us : ℕ) :
    HostInv (h.follow { h.node with time := h.node.time + us }) :=
  hI.outside hb rfl ⟨rfl, rfl, rfl⟩ rfl (.inl rfl) (fun hsending => ⟨hsending, rfl⟩)
    (List.append_nil _).symm (List.forall_mem_nil _)

end Between

/-! ## The running call -/

section Call

variable {h : Host} (hI : HostInv h) {packet : Bytes}
include hI

section Point

variable {point : SendPoint} (hs : h.node.sender = some (packet, point))
include hs

/-- A step of the call that passes nothing on. -/
theorem HostInv.advance (hentry : point ≠ .entry) (hsetup : SameSetup h.node.bus bus)
    (htoSend : bus.toSend = h.node.bus.toSend ∧ bus.toSendSize = h.node.bus.toSendSize)
    (hlive : bus.status = .sending ∨ q = .checked → Live h point) (hcount : handed q = handed point)
    (hq : q ≠ .entry)
    (hinner : ∀ i, q = .assignWi i ∨ q = .callSend i → bus.status = .sending ∧ i < packet.length)
    (hl : ∀ o ∈ l, Silent o) : HostInv (h.follow ((h.node.emit (bus, l)).moveTo packet q)) := by
  have hrun := hI.running packet point hs hentry
  rw [follow_silent (l := l) (by simp) hl]
  refine ⟨by simp only [moveTo_bus, emit_bus, hsetup.interrupt]; exact hI.interrupt, ?_, hI.repeats,
    ?_, ?_⟩
  · simp only [moveTo_bus, emit_bus, htoSend.1, htoSend.2]
    exact hI.pending
  · intro p hp
    simp only [moveTo_sender, Option.some.injEq, Prod.mk.injEq] at hp
    exact absurd hp.2 hq
  · intro p pt hp _
    obtain ⟨rfl, rfl⟩ := hp
    obtain ⟨earlier, passed, hattempts, hprefix, hexact⟩ := hrun.current
    refine ⟨⟨earlier, passed, hattempts, hprefix, ?_⟩, ?_, hinner⟩
    · intro hnow
      rw [hcount]
      exact hexact (hlive hnow)
    · intro hnow
      obtain ⟨hpacket, hsize⟩ := hrun.live (hlive hnow)
      exact ⟨hpacket, by simpa only [moveTo_bus, emit_bus, htoSend.2] using hsize⟩

/-- The same without any change of the bus. -/
theorem HostInv.moveTo (hentry : point ≠ .entry) (hcount : handed q = handed point)
    (hq : q ≠ .entry) (hchecked : q ≠ .checked)
    (hinner : ∀ i, q = .assignWi i ∨ q = .callSend i →
      h.node.bus.status = .sending ∧ i < packet.length) :
    HostInv (h.follow (h.node.moveTo packet q)) := by
  rw [moveTo_eq_emit_moveTo]
  exact hI.advance hs hentry ⟨rfl, rfl, rfl⟩ ⟨rfl, rfl⟩
    (fun hlive => .inl (hlive.resolve_right hchecked)) hcount hq hinner
    (List.forall_mem_nil _)

/-- The call returns; when it returns 0, everything was passed on. -/
theorem HostInv.leave (v : ℤ)
    (hv : v = 0 → point ≠ .entry ∧ Live h point ∧ h.handed.length ≤ handed point) :
    HostInv (h.follow (h.node.leave v)) := by
  have hrecord : (h.follow (h.node.leave v)).attempts =
      Host.recordOne h.handed h.attempts (.returned v) := follow_attempts (leave_obs _ _)
  refine HostInv.of_none rfl hI.interrupt hI.pending ?_
  rw [hrecord]
  by_cases hzero : v = 0
  · obtain ⟨hentry, hlive, hall⟩ := hv hzero
    obtain ⟨earlier, passed, hattempts, -, hexact⟩ := (hI.running packet point hs hentry).current
    have hpassed : passed = h.handed := (hexact hlive).trans (List.take_of_length_le hall)
    have hrepeats := hI.repeats
    rw [hattempts] at hrepeats ⊢
    simp only [Host.recordOne, List.getLast?_concat, List.dropLast_concat]
    exact forall_mem_concat.mpr ⟨(forall_mem_concat.mp hrepeats).1,
      hpassed ▸ List.prefix_rfl, fun _ => hpassed⟩
  · rw [recordOne_returned_ne hzero]
    exact hI.repeats

end Point

/-- The bus is idle, and an attempt begins. -/
theorem HostInv.accepted (hs : h.node.sender = some (packet, .entry)) :
    HostInv (h.follow ((h.node.emit (h.node.bus, [.accepted packet])).moveTo packet .checked)) := by
  obtain ⟨hpacket, hsize⟩ := hI.entry packet hs
  have hrecord : (h.follow ((h.node.emit (h.node.bus, [.accepted packet])).moveTo packet
      .checked)).attempts = h.attempts ++ [⟨h.handed, [], false⟩] :=
    follow_attempts (l := [.accepted packet]) (by simp)
  refine ⟨hI.interrupt, hI.pending, ?_, ?_, ?_⟩
  · rw [hrecord]
    exact forall_mem_concat.mpr ⟨hI.repeats, List.nil_prefix, by simp⟩
  · intro p hp
    cases hp
  · intro p pt hp _
    cases hp
    exact ⟨⟨h.attempts, [], hrecord, List.nil_prefix, fun _ => rfl⟩, fun _ => ⟨hpacket, hsize⟩,
      by simp⟩

/-- A byte is passed on: the next one of the packet. -/
theorem HostInv.passed {i : ℕ} (hs : h.node.sender = some (packet, .callSend i)) :
    HostInv (h.follow ((h.node.emit (h.node.bus, [.passed (packet.getD i 0)])).moveTo packet
      (.inSend i))) := by
  have hrun := hI.running packet (.callSend i) hs (by simp)
  obtain ⟨hsending, hi⟩ := hrun.inner i (.inr rfl)
  obtain ⟨hpacket, hsize⟩ := hrun.live (.inl hsending)
  obtain ⟨earlier, passed, hattempts, -, hexact⟩ := hrun.current
  have hpassed : passed ++ [packet.getD i 0] = h.handed.take (i + 1) := by
    rw [hpacket] at hi ⊢
    rw [hexact (.inl hsending), List.getD_eq_getElem?_getD, List.getElem?_eq_getElem hi]
    exact List.take_concat_get' _ i hi
  have hrecord : (h.follow ((h.node.emit (h.node.bus, [.passed (packet.getD i 0)])).moveTo packet
      (.inSend i))).attempts = earlier ++ [⟨h.handed, passed ++ [packet.getD i 0], false⟩] := by
    rw [follow_attempts (l := [.passed (packet.getD i 0)]) (by simp), hattempts]
    simp [Host.recordOne]
  refine ⟨hI.interrupt, hI.pending, ?_, ?_, ?_⟩
  · have hrepeats := hI.repeats
    rw [hattempts] at hrepeats
    rw [hrecord]
    exact forall_mem_concat.mpr ⟨(forall_mem_concat.mp hrepeats).1,
      hpassed ▸ List.take_prefix _ _, by simp⟩
  · intro p hp
    cases hp
  · intro p pt hp _
    cases hp
    exact ⟨⟨earlier, _, hrecord, hpassed ▸ List.take_prefix _ _, fun _ => hpassed⟩,
      fun _ => ⟨hpacket, hsize⟩, by simp⟩

end Call

/-- **A step of the running call.** -/
theorem HostInv.sendStep (hI : HostInv h) {packet : Bytes} {point : SendPoint}
    (hs : h.node.sender = some (packet, point)) (stat rand : UInt8) :
    HostInv (h.follow (h.node.sendStep packet stat rand point)) := by
  have hcase := sendStep_case h.node packet stat rand point
  generalize h.node.sendStep packet stat rand point = m at hcase ⊢
  cases hcase with
  | busy hne => exact hI.leave hs 1 (by simp)
  | accepts hidle => exact hI.accepted hs
  | setsStatus =>
    exact hI.advance hs (by simp) ⟨rfl, rfl, rfl⟩ ⟨rfl, rfl⟩ (fun _ => .inr rfl) rfl (by simp)
      (by simp) (List.forall_mem_nil _)
  | storesTime | clearsWi =>
    exact hI.advance hs (by simp) ⟨rfl, rfl, rfl⟩ ⟨rfl, rfl⟩
      (fun hlive => .inl (hlive.resolve_right (by simp))) rfl (by simp) (by simp)
        (List.forall_mem_nil _)
  | starts =>
    exact hI.advance hs (by simp) ⟨rfl, rfl, rfl⟩ ⟨rfl, rfl⟩
      (fun hlive => .inl (hlive.resolve_right (by simp))) rfl (by simp) (by simp)
        (List.forall_mem_singleton.mpr trivial)
  | polls | stillSending | stopped | unechoed | echoed | sent | received =>
    exact hI.moveTo hs (by simp) rfl (by simp) (by simp) (by simp)
  | polledNext i hi | polledEnd i hi | reads i hstat hi =>
    rw [hI.interrupt] at hi
    cases hi
  | updates i =>
    have hb : h.node.between = true := between_of_some hs
    have hsilent := (update_case h.node.bus h.node.now rand).silent
    have hobs : (h.node.update rand).obs = h.node.obs ++ _ := emit_obs _ _
    have hu := hI.update hb rand
    rw [follow_silent hobs hsilent] at hu
    have hmove := hu.moveTo hs (by simp)
      (show handed (.pollStatus i) = handed (.pollUpdate i) from rfl) (by simp) (by simp) (by simp)
    rw [follow_silent (l := []) (by simp) (List.forall_mem_nil _)] at hmove
    rw [follow_silent ((moveTo_obs _ _ _).trans hobs) hsilent]
    exact hmove
  | collided i hne => exact hI.leave hs (-2) (by simp)
  | next i hstatus hlt =>
    refine hI.moveTo hs (by simp) rfl (by simp) (by simp) fun j hj => ⟨hstatus, ?_⟩
    rcases hj with hj | hj
    · cases hj
      exact hlt
    · cases hj
  | complete i hstatus hge =>
    have hrun := hI.running packet (.statusCheck i) hs (by simp)
    refine hI.leave hs 0 fun _ => ⟨by simp, .inl hstatus, ?_⟩
    rw [← (hrun.live (.inl hstatus)).1]
    exact hge
  | expects i =>
    obtain ⟨hstatus, hi⟩ :=
      (hI.running packet (.assignWi i) hs (by simp)).inner i (.inl rfl)
    refine hI.advance hs (by simp) ⟨rfl, rfl, rfl⟩ ⟨rfl, rfl⟩
      (fun hlive => .inl (hlive.resolve_right (by simp))) rfl (by simp)
      (fun j hj => ⟨hstatus, ?_⟩) (List.forall_mem_singleton.mpr trivial)
    rcases hj with hj | hj
    · cases hj
    · cases hj
      exact hi
  | passes i => exact hI.passed hs
  | fails i hstat => exact hI.leave hs _ (fun hzero => absurd hzero (statToInt8_ne_zero hstat))

/-! ## The host -/

section Host

variable {h : Host}

/-- What the update at the start of `ubh_manage_bus` leaves, whatever is shown behind it. -/
theorem HostInv.managed (hI : HostInv h) (hnone : h.node.sender = none) (rand : UInt8) :
    HostInv { h with node := h.node.update rand } ∧
      ∀ (send : HostSend) (handed : Bytes) (node : Node) (obs : List Observation),
        node.obs = (h.node.update rand).obs ++ obs → (∀ o ∈ obs, Silent o) →
          ({ h with send := send, handed := handed } : Host).follow node =
            { h with node := node, send := send, handed := handed } := by
  have hsilent := (update_case h.node.bus h.node.now rand).silent
  have hobs : (h.node.update rand).obs = h.node.obs ++ _ := emit_obs _ _
  have hu := hI.update (between_of_none hnone) rand
  rw [follow_silent hobs hsilent] at hu
  refine ⟨hu, fun send handed node obs hnode hl => ?_⟩
  rw [hobs, List.append_assoc] at hnode
  exact follow_silent hnode (List.forall_mem_append.mpr ⟨hsilent, hl⟩)

/-- The bus takes the packet of `send_on_idle`. -/
theorem HostInv.handOver (hI : HostInv h) (hnone : h.node.sender = none) {rand : UInt8}
    (hcall : h.node.callsSendOnIdle rand) (hsize : h.send.sendSize ≠ 0) :
    HostInv (h.manageBus rand) := by
  obtain ⟨hu, hfollow⟩ := hI.managed hnone rand
  set data := h.send.sendData.take h.send.sendSize with hdata
  have hhook : h.send.sendOnIdle = (.packet data, { h.send with sendSize := 0 }) := if_pos hsize
  have hmanage : h.manageBus rand =
      ({ h with send := { h.send with sendSize := 0 }, handed := data } : Host).follow
        (h.node.manage [] rand (.packet data)) := by
    unfold Host.manageBus
    simp only [hhook]
    exact if_pos ⟨hcall, hsize⟩
  have hbuffer : h.send.sendData.take data.length = data := by
    rw [hdata, List.length_take, List.take_eq_take_iff]
    omega
  have hcase := manage_case hI.interrupt [] rand (.packet data)
  rw [hmanage]
  generalize h.node.manage [] rand (.packet data) = m at hcase
  cases hcase with
  | returned v hbusy hnohook => exact absurd rfl (hnohook hcall data)
  | resend hidle hpending => exact absurd hcall.2 hpending
  | handOver _ hpacket _ hne =>
    cases hpacket
    rw [hfollow _ _ _ [] (by simp) (List.forall_mem_nil _)]
    refine ⟨hu.interrupt, fun _ => ⟨rfl, List.take_length, hbuffer⟩, hI.repeats, ?_, ?_⟩
    · intro p hp
      cases hp
      exact ⟨rfl, hne⟩
    · intro p pt hp hpt
      cases hp
      exact absurd rfl hpt
  | handEmpty _ hpacket _ hempty =>
    rw [hfollow _ _ _ [.managed 2] (by simp) (List.forall_mem_singleton.mpr trivial)]
    exact HostInv.of_none hnone hu.interrupt (fun hne => absurd hempty hne) hI.repeats

/-- `ubh_manage_bus`: the bus takes a packet, or goes on with the pending one. -/
theorem HostInv.manageBus (hI : HostInv h) (hnone : h.node.sender = none) (rand : UInt8) :
    HostInv (h.manageBus rand) := by
  by_cases hcall : h.node.callsSendOnIdle rand ∧ h.send.sendSize ≠ 0
  · exact hI.handOver hnone hcall.1 hcall.2
  · obtain ⟨hu, hfollow⟩ := hI.managed hnone rand
    have hmanage : h.manageBus rand = h.follow (h.node.manage [] rand h.send.sendOnIdle.1) :=
      if_neg hcall
    have hnopacket : ∀ data, h.send.sendOnIdle.1 = .packet data →
        ¬ h.node.callsSendOnIdle rand := by
      intro data hdata hcalled
      refine hcall ⟨hcalled, fun hzero => ?_⟩
      simp [HostSend.sendOnIdle, hzero] at hdata
    have hcase := manage_case hI.interrupt [] rand h.send.sendOnIdle.1
    rw [hmanage]
    generalize h.node.manage [] rand h.send.sendOnIdle.1 = m at hcase
    cases hcase with
    | returned v =>
      rw [hfollow h.send h.handed _ [.managed v] (by simp) (List.forall_mem_singleton.mpr trivial)]
      exact HostInv.of_none hnone hu.interrupt hu.pending hI.repeats
    | resend hidle hsize =>
      rw [hfollow h.send h.handed _ [] (by simp) (List.forall_mem_nil _)]
      obtain ⟨hlength, hbytes, -⟩ := hu.pending hsize
      refine ⟨hu.interrupt, hu.pending, hI.repeats, ?_, ?_⟩
      · intro p hp
        cases hp
        refine ⟨?_, hsize⟩
        exact (congrArg (fun k => (h.node.update rand).bus.toSend.take k) hlength).trans hbytes
      · intro p pt hp hpt
        cases hp
        exact absurd rfl hpt
    | handOver data hdata hcalled => exact absurd hcalled (hnopacket data hdata)
    | handEmpty data hdata hcalled => exact absurd hcalled (hnopacket data hdata)

/-- The bus reads the new contents of the buffer.  Nothing changes for it when it has a packet
and the buffer is left alone. -/
theorem HostInv.share (hI : HostInv h) (hb : h.node.between = true) {send : HostSend}
    (hkeep : h.node.bus.toSendSize ≠ 0 → send.sendData = h.send.sendData) :
    HostInv (({ h with send := send } : Host).shareSendData) := by
  have hback : ∀ {p : Bytes} {pt : SendPoint},
      (({ h with send := send } : Host).shareSendData).node.sender = some (p, pt) →
      ∃ packet, h.node.sender = some (packet, pt) ∧ p = send.sendData.take packet.length := by
    intro p pt hp
    obtain ⟨⟨packet, pt'⟩, hs, heq⟩ := Option.map_eq_some_iff.mp hp
    cases heq
    exact ⟨packet, hs, rfl⟩
  refine ⟨hI.interrupt, ?_, hI.repeats, ?_, ?_⟩
  · intro hne
    obtain ⟨hlength, -, hbuffer⟩ := hI.pending hne
    rw [← hkeep hne] at hbuffer
    exact ⟨hlength, hbuffer, hbuffer⟩
  · intro p hp
    obtain ⟨packet, hs, -⟩ := hback hp
    exact absurd hb (by simp [between_of_some hs, SendPoint.interruptible])
  · intro p pt hp hpt
    obtain ⟨packet, hs, rfl⟩ := hback hp
    have hrun := hI.running packet pt hs hpt
    refine ⟨hrun.current, ?_, ?_⟩
    · intro hlive
      obtain ⟨rfl, hne⟩ := hrun.live hlive
      refine ⟨?_, hne⟩
      rw [hkeep hne]
      exact (hI.pending hne).2.2
    · rintro i (rfl | rfl) <;>
        exact absurd hb (by simp [between_of_some hs, SendPoint.interruptible])

theorem HostInv.sendPacketPriv (hI : HostInv h) (hb : h.node.between = true) {toAddress : Int16}
    {ns : UInt8} {data : Bytes} (hkeep : h.send.Refuses build data ∨ h.node.bus.toSendSize = 0) :
    HostInv (h.callSendPacketPriv build toAddress ns data) := by
  apply hI.share hb
  intro hne
  have hrefuses := hkeep.resolve_right hne
  unfold HostSend.sendPacketPriv
  rw [if_pos hrefuses]

end Host

/-- **One step.** -/
theorem HostInv.step {h' : Host} {a : HostAction} (hI : HostInv h) (hkeep : KeepsBuffer build h a)
    (hstep : hostStep build h a = some h') : HostInv h' := by
  have hlink : ∀ {b : LinkAction}, h.linkStep b = some h' →
      ∃ node, h' = h.follow node ∧ StepCase h.node b node ∧
        (h.node.between = true ∨ ∃ stat rand, b = .sender stat rand) := by
    intro b hb
    obtain ⟨node, hnode, rfl⟩ := Option.map_eq_some_iff.mp hb
    exact ⟨node, rfl, stepAtomic_case hnode⟩
  cases a with
  | sendPacketPriv toAddress ns data =>
    simp only [hostStep] at hstep
    split at hstep
    next hb => cases hstep; exact hI.sendPacketPriv hb.1 hkeep
    next => cases hstep
  | manageBus rand =>
    simp only [hostStep] at hstep
    split at hstep
    next hnone => cases hstep; exact hI.manageBus hnone rand
    next => cases hstep
  | recByte b =>
    obtain ⟨node, rfl, hcase, hb⟩ := hlink (b := .recByte b.toUInt16) hstep
    cases hcase
    exact hI.feed (by simpa using hb) b.toUInt16
  | predict =>
    obtain ⟨node, rfl, hcase, hb⟩ := hlink (b := .predict) hstep
    cases hcase
    exact hI.predict (by simpa using hb)
  | tick us =>
    obtain ⟨node, rfl, hcase, hb⟩ := hlink (b := .tick us) hstep
    cases hcase
    exact hI.tick (by simpa using hb) us
  | sender stat rand =>
    obtain ⟨node, rfl, hcase, -⟩ := hlink (b := .sender stat rand) hstep
    cases hcase with
    | sender _ _ packet point hs => exact hI.sendStep hs stat rand

/-- **A retransmission repeats the packet.**  Calls are taken as atomic, and `ub_send_packet` is
interrupted only where it waits.  In every such run in which each call of `send_packet_priv` is
refused or finds nothing to send on the bus, every attempt passes on the bytes that were in
`send_data` when `send_on_idle` handed the packet over, all of them when it succeeds; and what is
pending are these bytes.
SOURCE: ub_uartbus.c:106-122; ub_bootloader.c:439-479, 574-577; ub.c:481-503 -/
theorem attempts_repeat (build : HostBuild) (byteTimeUs : ℕ) (wi : ℤ) (time : ℕ)
    (acts : List HostAction) (h : Host)
    (hkeep : Along (hostStep build) (KeepsBuffer build) (Host.init build byteTimeUs wi time) acts)
    (hrun : run (hostStep build) (Host.init build byteTimeUs wi time) acts = some h) :
    (∀ a ∈ h.attempts, a.passed <+: a.handed ∧ (a.complete = true → a.passed = a.handed)) ∧
      (h.node.bus.toSendSize ≠ 0 →
        h.node.bus.toSend.take h.node.bus.toSendSize = h.handed) := by
  have hcfg : hostCfg &&& cfgReadWithInterrupt ≠ 0 := by decide
  have hinit : HostInv (Host.init build byteTimeUs wi time) :=
    HostInv.of_none rfl (decide_eq_true hcfg) (fun hne => absurd rfl hne)
      (List.forall_mem_nil _)
  have hI : HostInv h := run_invariant (fun _ _ _ hI hP hstep => hI.step hP hstep) hinit hkeep hrun
  refine ⟨hI.repeats, fun hne => ?_⟩
  obtain ⟨hlength, hbytes, -⟩ := hI.pending hne
  rw [hlength]
  exact hbytes

/-- A host with the packet size of ubh.h and the address 12. -/
def hostBuild : HostBuild := { maxPacketSize := 48, busAddress := 12, max_lt := by decide }

/-- A packet of five bytes is handed over, and its first byte collides. -/
def collidedRun : List HostAction :=
  [.tick 1000, .manageBus 0, .sendPacketPriv 5 1 [9], .manageBus 0] ++
    List.replicate 11 (.sender 0 0) ++ [.recByte 0x55] ++ List.replicate 4 (.sender 0 0)

/-- The second attempt, up to its first byte. -/
def repeatedRun : List HostAction :=
  [.tick 1000, .manageBus 0, .tick 1000, .manageBus 0] ++ List.replicate 11 (.sender 0 0)

/-- The packet of `collidedRun` collides and is sent again: two attempts of the same bytes. -/
theorem attempts_repeat_collision :
    ∃ h, run (hostStep hostBuild) (Host.init hostBuild 100 0 0) (collidedRun ++ repeatedRun) =
      some h ∧
      h.attempts.length = 2 ∧ ∀ a ∈ h.attempts, a.passed <+: a.handed := by
  have hkeep : Along (hostStep hostBuild) (KeepsBuffer hostBuild) (Host.init hostBuild 100 0 0)
      (collidedRun ++ repeatedRun) := by decide +kernel
  refine exists_eq_some (Q := fun h => h.attempts.length = 2) (by decide +kernel)
    fun h hrun hlength => ⟨hlength, fun a ha => ?_⟩
  exact ((attempts_repeat hostBuild 100 0 0 _ h hkeep hrun).1 a ha).1

/-- The same run with another `send_packet_priv` before the second attempt: that attempt begins
with a byte of the new packet, for the old one. -/
theorem attempt_changed :
    ∃ h, run (hostStep hostBuild) (Host.init hostBuild 100 0 0)
        (collidedRun ++ [.sendPacketPriv 6 1 [8]] ++ repeatedRun) = some h ∧
      h.attempts = [⟨[5, 12, 1, 9, 98], [5], false⟩, ⟨[5, 12, 1, 9, 98], [6], false⟩] :=
  exists_eq_some (by decide +kernel) fun _ _ h => h

end Uartbus.Analysis
