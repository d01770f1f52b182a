import Uartbus.Analysis.Framing
import Uartbus.Analysis.LinkProgress
import Uartbus.Model.Gateway

/-!
# Packets through the Linux gateway

The gateway reads the stream from the PC, stops at the end of each packet, and goes on when the
bus has taken the packet and sent it.  `Serves` says where it stands: it reads, it offers a
packet to the bus, or it waits for the packet to be sent.  Every action keeps this
(`Serves.step`), and from every such state the whole stream can be passed on
(`Serves.finishes`), because the bus can always become free (`becomes_free`).

The size of the offered packet is a `uint8_t`.  A packet of 0, 256, 512, ... bytes is never
handed over and the loop is never left; another packet of more than 255 bytes is cut.  So the
gateway does its work exactly for packets of 1 to 255 bytes (`linux_passes_on_iff`).
-/

set_option autoImplicit false

namespace Uartbus.Analysis

open Lib Model

variable {packets rest : List Bytes} {g g' : LinuxGateway} {a : LinuxAction}
  {packet : Bytes} {n : Node} {byteTimeUs : ℕ}

/-- The machine of `manage_data_from_pc`. -/
def linuxMachine : Unstuffer UInt8 Bytes Bytes :=
  Unstuffer.collector packetEscape (fun b => decide (b = ~~~packetEscape)) (by decide)

/-- Nothing runs and nothing is left to send. -/
def Free (n : Node) : Prop := n.sender = none ∧ n.bus.toSendSize = 0

/-- The gateway reads, and the bytes still to come give the packets `rest`. -/
structure Reading (rest : List Bytes) (g : LinuxGateway) : Prop where
  reads : g.dispatching = false
  taken : g.sendData = false ∧ g.sendSize = 0
  free : Free g.node
  input : linuxMachine.feed (g.mayCut, g.decode) g.input = ((false, []), rest)

/-- The gateway is in the loop that waits for the bus. -/
structure Waiting (rest : List Bytes) (g : LinuxGateway) : Prop where
  waits : g.dispatching = true
  input : linuxMachine.feed (false, []) g.input = ((false, []), rest)

/-- The packet in `decode` is offered to the bus. -/
structure Offering (packet : Bytes) (rest : List Bytes) (g : LinuxGateway) : Prop
    extends Waiting rest g where
  decode : g.decode = packet
  offered : g.sendData = true ∧ g.sendSize = UInt8.ofNat packet.length
  free : Free g.node

/-- Where the gateway stands with the packets from the PC. -/
inductive Serves (packets : List Bytes) (g : LinuxGateway) : Prop where
  | reading (rest : List Bytes) (h : Reading rest g) (hsplit : packets = g.handed ++ rest)
  | offering (packet : Bytes) (rest : List Bytes) (h : Offering packet rest g)
      (hsplit : packets = g.handed ++ packet :: rest)
  | taken (rest : List Bytes) (h : Waiting rest g)
      (htaken : g.sendData = false ∧ g.sendSize = 0) (hsplit : packets = g.handed ++ rest)

theorem Serves.begins (h : Serves packets g) : g.handed <+: packets := by
  cases h with
  | reading rest _ hsplit => exact ⟨rest, hsplit.symm⟩
  | offering packet rest _ hsplit => exact ⟨packet :: rest, hsplit.symm⟩
  | taken rest _ _ hsplit => exact ⟨rest, hsplit.symm⟩

/-! ## Steps -/

/-- The calls of the link layer from the threads of the gateway. -/
def GatewayCall : LinkAction → Prop
  | .recByte _ | .update _ | .tick _ | .sender _ _ => True
  | .manage received _ hook => received = [] ∧ hook = .null
  | _ => False

/-- What a step of the gateway can be. -/
inductive LinuxCase (g : LinuxGateway) : LinuxGateway → Prop where
  | read (b : UInt8) (rest : Bytes) (hreads : g.dispatching = false)
      (hinput : g.input = b :: rest) :
      LinuxCase g (({ g with input := rest } : LinuxGateway).readByte b)
  | wait (rand : UInt8) (hwaits : g.dispatching = true) (hnone : g.node.sender = none) :
      LinuxCase g (g.waitRound rand)
  | link (node : Node) (a : LinkAction) (hcall : GatewayCall a) (hcase : StepCase g.node a node) :
      LinuxCase g { g with node := node }

theorem linuxStep_case (h : linuxStep g a = some g') : LinuxCase g g' := by
  have hlink : ∀ {b : LinkAction}, GatewayCall b → g.linkStep b = some g' → LinuxCase g g' := by
    intro b hcall hstep
    obtain ⟨node, hnode, rfl⟩ := Option.map_eq_some_iff.mp hstep
    exact .link node b hcall (step_case hnode)
  cases a with
  | read =>
    simp only [linuxStep] at h
    split at h
    next b rest hreads hinput => cases h; exact .read b rest hreads hinput
    next => cases h
  | wait rand =>
    simp only [linuxStep] at h
    split at h
    next hwait => cases h; exact .wait rand hwait.1 hwait.2
    next => cases h
  | main rand =>
    simp only [linuxStep] at h
    split at h
    · exact hlink (b := .manage [] rand .null) ⟨rfl, rfl⟩ h
    · exact hlink (b := .update rand) trivial h
  | bus val => exact hlink (b := .recByte val.toUInt16) trivial h
  | tick us => exact hlink (b := .tick us) trivial h
  | sender rand => exact hlink (b := .sender 0 rand) trivial h

/-! ## The bus -/

theorem Free.update (h : Free n) (rand : UInt8) : Free (n.update rand) := by
  refine ⟨h.1, ?_⟩
  rcases (update_case n.bus n.now rand).toSend_eq.2 with heq | heq
  · exact heq.trans h.2
  · exact heq

/-- `ub_manage_connection` does not get to `send_on_idle`, or there is none. -/
theorem Free.manage (h : Free n) (hi : n.bus.interrupt = true) (rand : UInt8)
    (hook : Node.SendOnIdle) (hcall : hook = .null ∨ ¬ n.callsSendOnIdle rand) :
    Free (n.manage [] rand hook) := by
  have hu := h.update rand
  have hcase := manage_case hi [] rand hook
  generalize n.manage [] rand hook = m at hcase
  cases hcase with
  | returned v => exact hu
  | resend hidle hsize => exact absurd hu.2 hsize
  | handOver data hhook hcalled | handEmpty data hhook hcalled =>
    rcases hcall with rfl | hnot
    · cases hhook
    · exact absurd hcalled hnot

theorem Free.step {n' : Node} {a : LinkAction} (h : Free n) (hw : Working n) (hcall : GatewayCall a)
    (hcase : StepCase n a n') : Free n' := by
  cases hcase with
  | recByte data => exact ⟨h.1, (recByte_case n.bus n.now data).toSend_eq.2.trans h.2⟩
  | update rand => exact h.update rand
  | tick us => exact h
  | manage received rand hook hnone =>
    obtain ⟨rfl, rfl⟩ := hcall
    exact h.manage hw.interrupt rand .null (.inl rfl)
  | sender stat rand packet point hs =>
    rw [h.1] at hs
    cases hs
  | predict | prewait cycles | send packet hnone => exact hcall.elim

theorem Working.step {n' : Node} {a : LinkAction} (h : Working n) (hcall : GatewayCall a)
    (hcase : StepCase n a n') : Working n' := by
  cases hcase with
  | recByte data => exact h.feed data
  | update rand => exact h.update rand
  | tick us => exact h.same ⟨rfl, rfl, rfl⟩ (.inl rfl)
  | manage received rand hook hnone => exact h.manage hnone received rand hook
  | sender stat rand packet point hs => exact h.sendStep packet stat rand point
  | predict | prewait cycles | send packet hnone => exact hcall.elim

/-- What the waiting loop does to the node. -/
theorem waitRound_node (g : LinuxGateway) (rand : UInt8) :
    (g.waitRound rand).node = g.node ∨
      (g.waitRound rand).node = g.node.manage [] rand g.sendOnIdle := by
  unfold LinuxGateway.waitRound
  split_ifs
  · exact .inl rfl
  · exact .inr rfl
  · exact .inr rfl

theorem readByte_node (g : LinuxGateway) (b : UInt8) : (g.readByte b).node = g.node := by
  unfold LinuxGateway.readByte
  split_ifs <;> rfl

theorem working_linuxStep (h : Working g.node) (hstep : linuxStep g a = some g') :
    Working g'.node := by
  cases linuxStep_case hstep with
  | read b rest hreads hinput =>
    rw [readByte_node]
    exact h
  | wait rand hwaits hnone =>
    rcases waitRound_node g rand with heq | heq
    · rw [heq]; exact h
    · rw [heq]; exact h.manage hnone [] rand _
  | link node b hcall hcase => exact h.step hcall hcase

/-! ## Safety -/

/-- Every packet has a size that is a byte and is not 0. -/
def Sized (packets : List Bytes) : Prop := ∀ p ∈ packets, 0 < p.length ∧ p.length < 256

theorem toNat_size (h : packet.length < 256) :
    (UInt8.ofNat packet.length).toNat = packet.length := by
  rw [UInt8.toNat_ofNat', Nat.mod_eq_of_lt (by simpa using h)]

theorem size_ne_zero (hpos : 0 < packet.length) (h : packet.length < 256) :
    UInt8.ofNat packet.length ≠ 0 := by
  intro heq
  have hzero := congrArg UInt8.toNat heq
  rw [toNat_size h] at hzero
  exact absurd hzero (Nat.pos_iff_ne_zero.mp hpos)

/-- A byte is a step of the machine; a packet that has ended is offered to the bus. -/
theorem readByte_case (g : LinuxGateway) (b : UInt8) :
    (∃ cut decode, linuxMachine.step (g.mayCut, g.decode) b = ((cut, decode), []) ∧
        g.readByte b = { g with mayCut := cut, decode := decode }) ∨
      linuxMachine.step (g.mayCut, g.decode) b = ((false, []), [g.decode]) ∧
        g.readByte b = { g with
          sendData := true
          sendSize := UInt8.ofNat g.decode.length
          dispatching := true } := by
  unfold linuxMachine Unstuffer.collector Unstuffer.step LinuxGateway.readByte
  cases hcut : g.mayCut with
  | true =>
    by_cases hend : b = ~~~packetEscape
    · exact .inr (by simp [hend])
    · exact .inl ⟨false, g.decode ++ [b], by simp [hend]⟩
  | false =>
    by_cases hesc : b = packetEscape
    · exact .inl ⟨true, g.decode, by simp [hesc]⟩
    · exact .inl ⟨false, g.decode ++ [b], by simp [hesc]⟩

/-- A byte of the stream. -/
theorem Reading.readByte (h : Reading rest g) {b : UInt8} {more : Bytes}
    (hinput : g.input = b :: more) :
    Reading rest (({ g with input := more } : LinuxGateway).readByte b) ∨
      ∃ packet rest', rest = packet :: rest' ∧
        Offering packet rest' (({ g with input := more } : LinuxGateway).readByte b) := by
  have hfeed := h.input
  rw [hinput, Unstuffer.feed, transduce_cons] at hfeed
  rcases readByte_case { g with input := more } b with ⟨cut, decode, hstep, hread⟩ | ⟨hstep, hread⟩
  · rw [show linuxMachine.step (g.mayCut, g.decode) b = _ from hstep] at hfeed
    rw [hread]
    exact .inl ⟨h.reads, h.taken, h.free, hfeed⟩
  · rw [show linuxMachine.step (g.mayCut, g.decode) b = _ from hstep, Prod.mk.injEq] at hfeed
    obtain ⟨hstate, hpackets⟩ := hfeed
    rw [hread]
    exact .inr ⟨g.decode, _, hpackets.symm, ⟨rfl, Prod.ext hstate rfl⟩, rfl, ⟨rfl, rfl⟩, h.free⟩

theorem readByte_handed (g : LinuxGateway) (b : UInt8) : (g.readByte b).handed = g.handed := by
  unfold LinuxGateway.readByte
  split_ifs <;> rfl

/-- An offered packet is handed over whole, or still offered. -/
theorem Offering.waitRound (h : Offering packet rest g) (hw : Working g.node)
    (hsize : 0 < packet.length ∧ packet.length < 256) (rand : UInt8) :
    (g.node.callsSendOnIdle rand → Waiting rest (g.waitRound rand) ∧
        ((g.waitRound rand).sendData = false ∧ (g.waitRound rand).sendSize = 0) ∧
        (g.waitRound rand).handed = g.handed ++ [packet]) ∧
      (¬ g.node.callsSendOnIdle rand → Offering packet rest (g.waitRound rand) ∧
        (g.waitRound rand).handed = g.handed) := by
  have hne : g.sendSize ≠ 0 := by
    rw [h.offered.2]
    exact size_ne_zero hsize.1 hsize.2
  have hloop : ¬ (g.sendData = false ∧ g.node.bus.toSendSize = 0) := by
    rw [h.offered.1]
    exact fun hleave => Bool.noConfusion hleave.1
  have hwhole : g.decode.take g.sendSize.toNat = packet := by
    rw [h.offered.2, toNat_size hsize.2, h.decode, List.take_length]
  unfold LinuxGateway.waitRound
  rw [if_neg hloop]
  constructor
  · intro hcall
    rw [if_pos ⟨hcall, hne⟩]
    exact ⟨⟨h.waits, h.input⟩, ⟨rfl, rfl⟩, by rw [hwhole]⟩
  · intro hcall
    rw [if_neg fun hboth => hcall hboth.1]
    have hfree := h.free.manage hw.interrupt rand g.sendOnIdle (.inr hcall)
    exact ⟨⟨⟨h.waits, h.input⟩, h.decode, h.offered, hfree⟩, rfl⟩

/-- **One step.** -/
theorem Serves.step (hsized : Sized packets) (h : Serves packets g) (hw : Working g.node)
    (hstep : linuxStep g a = some g') : Serves packets g' := by
  cases linuxStep_case hstep with
  | read b more hreads hinput =>
    cases h with
    | reading rest h hsplit =>
      rcases h.readByte hinput with hread | ⟨packet, rest', rfl, hoffer⟩
      · exact .reading rest hread (by rw [readByte_handed]; exact hsplit)
      · exact .offering packet rest' hoffer (by rw [readByte_handed]; exact hsplit)
    | offering packet rest h => exact absurd (hreads.symm.trans h.waits) (by simp)
    | taken rest h => exact absurd (hreads.symm.trans h.waits) (by simp)
  | wait rand hwaits hnone =>
    cases h with
    | reading rest h => exact absurd (h.reads.symm.trans hwaits) (by simp)
    | offering packet rest h hsplit =>
      have hsize := hsized packet (by rw [hsplit]; simp)
      obtain ⟨hcalled, hnot⟩ := h.waitRound hw hsize rand
      by_cases hcall : g.node.callsSendOnIdle rand
      · obtain ⟨hwait, htaken, hhanded⟩ := hcalled hcall
        refine .taken rest hwait htaken ?_
        rw [hhanded, hsplit, List.append_assoc, List.singleton_append]
      · obtain ⟨hoffer, hhanded⟩ := hnot hcall
        exact .offering packet rest hoffer (by rw [hhanded]; exact hsplit)
    | taken rest h htaken hsplit =>
      unfold LinuxGateway.waitRound
      by_cases hleave : g.sendData = false ∧ g.node.bus.toSendSize = 0
      · rw [if_pos hleave]
        exact .reading rest ⟨rfl, htaken, ⟨hnone, hleave.2⟩, h.input⟩ hsplit
      · rw [if_neg hleave, if_neg fun hboth => hboth.2 htaken.2]
        exact .taken rest ⟨h.waits, h.input⟩ htaken hsplit
  | link node b hcall hcase =>
    cases h with
    | reading rest h hsplit =>
      exact .reading rest ⟨h.reads, h.taken, h.free.step hw hcall hcase, h.input⟩ hsplit
    | offering packet rest h hsplit =>
      exact .offering packet rest
        ⟨⟨h.waits, h.input⟩, h.decode, h.offered, h.free.step hw hcall hcase⟩ hsplit
    | taken rest h htaken hsplit => exact .taken rest ⟨h.waits, h.input⟩ htaken hsplit

/-! ## The stream is passed on -/

/-- What the bus can do, the gateway can let it do. -/
theorem BusReaches.linux {m : Node} (h : BusReaches n m) (g : LinuxGateway) :
    Reaches linuxStep { g with node := n } { g with node := m } := by
  induction h with
  | refl => exact Reaches.refl _
  | @tail k m' _ hmove ih =>
    apply ih.trans
    cases hmove with
    | tick us => exact Reaches.single (.tick us) rfl
    | feed b => exact Reaches.single (.bus b) rfl
    | manage hnone =>
      refine Reaches.single (.main 0) ?_
      simp [linuxStep, LinuxGateway.linkStep, step, hnone, Node.SendOnIdle.size]
    | sender packet point hs =>
      refine Reaches.single (.sender 0) ?_
      simp [linuxStep, LinuxGateway.linkStep, step, hs]

theorem reaches_wait (hwaits : g.dispatching = true) (hnone : g.node.sender = none) :
    Reaches linuxStep g (g.waitRound 0) :=
  Reaches.single (.wait 0) (if_pos ⟨hwaits, hnone⟩)

/-- A packet that was taken can be sent, and then the loop is left. -/
theorem Waiting.reads (h : Waiting rest g) (htaken : g.sendData = false ∧ g.sendSize = 0)
    (hw : Working g.node) :
    ∃ g', Reaches linuxStep g g' ∧ Reading rest g' ∧ g'.handed = g.handed ∧
      g'.input = g.input := by
  obtain ⟨m, hm, hnone, hsize⟩ := becomes_free hw
  have hreach := (hm.linux g).trans (reaches_wait (g := { g with node := m }) h.waits hnone)
  have hleave : ({ g with node := m } : LinuxGateway).waitRound 0 =
      { g with node := m, dispatching := false, decode := [], mayCut := false } :=
    if_pos ⟨htaken.1, hsize⟩
  rw [hleave] at hreach
  exact ⟨_, hreach, ⟨rfl, htaken, ⟨hnone, hsize⟩, h.input⟩, rfl, rfl⟩

/-- An offered packet can be taken. -/
theorem Offering.takes (h : Offering packet rest g) (hw : Working g.node)
    (hsize : 0 < packet.length ∧ packet.length < 256) :
    ∃ g', Reaches linuxStep g g' ∧ Waiting rest g' ∧ (g'.sendData = false ∧ g'.sendSize = 0) ∧
      g'.handed = g.handed ++ [packet] ∧ g'.input = g.input := by
  obtain ⟨m, hm, hidle, hcase⟩ := becomes_idle hw h.free.1
  obtain ⟨hnone, hzero⟩ : Free m := by
    rcases hcase with hfree | ⟨hne, -⟩
    · exact hfree
    · exact absurd h.free.2 hne
  have hcall : m.callsSendOnIdle 0 := by
    have hsame : (m.update 0).bus = m.bus := by
      simp [Node.update, Bus.ubOutUpdateState, hidle]
    exact ⟨by rw [hsame]; exact hidle, by rw [hsame]; exact hzero⟩
  have hoffer : Offering packet rest { g with node := m } :=
    ⟨⟨h.waits, h.input⟩, h.decode, h.offered, hnone, hzero⟩
  obtain ⟨hwait, htaken, hhanded⟩ := (hoffer.waitRound (hw.reaches hm) hsize 0).1 hcall
  refine ⟨_, (hm.linux g).trans (reaches_wait hoffer.waits hnone), hwait, htaken, hhanded, ?_⟩
  unfold LinuxGateway.waitRound
  split_ifs <;> rfl

/-- Everything was passed on: the packets were handed over, nothing is offered, the loop is left
and the stream is read. -/
structure Finished (packets : List Bytes) (g : LinuxGateway) : Prop where
  handed : g.handed = packets
  sendData : g.sendData = false
  dispatching : g.dispatching = false
  input : g.input = []

theorem working_reaches (h : Working g.node) (hreach : Reaches linuxStep g g') : Working g'.node :=
  hreach.invariant (I := fun g => Working g.node)
    (fun _ _ _ hI hstep => working_linuxStep hI hstep) h

/-- From a state in which it reads, the gateway can finish; by induction on what is left to
read. -/
theorem Reading.finishes (hsized : Sized packets) (h : Reading rest g)
    (hsplit : packets = g.handed ++ rest) (hw : Working g.node) :
    ∃ g', Reaches linuxStep g g' ∧ Finished packets g' := by
  induction hk : g.input.length generalizing g rest with
  | zero =>
    have hinput : g.input = [] := List.length_eq_zero_iff.mp hk
    have hrest := h.input
    rw [hinput] at hrest
    obtain rfl : [] = rest := congrArg Prod.snd hrest
    exact ⟨g, Reaches.refl g, by rw [hsplit, List.append_nil], h.taken.1, h.reads, hinput⟩
  | succ k ih =>
    obtain ⟨b, more, hinput⟩ := List.exists_cons_of_length_eq_add_one hk
    have hread : Reaches linuxStep g (({ g with input := more } : LinuxGateway).readByte b) := by
      refine Reaches.single .read ?_
      simp only [linuxStep]
      rw [h.reads, hinput]
    have hlength : (({ g with input := more } : LinuxGateway).readByte b).input.length = k := by
      rw [hinput, List.length_cons, Nat.add_right_cancel_iff] at hk
      unfold LinuxGateway.readByte
      split_ifs <;> exact hk
    have hw' := working_reaches hw hread
    have hhanded := readByte_handed { g with input := more } b
    rcases h.readByte hinput with hreading | ⟨packet, rest', rfl, hoffer⟩
    · obtain ⟨g', hreach, hfin⟩ := ih hreading (by rw [hhanded]; exact hsplit) hw' hlength
      exact ⟨g', hread.trans hreach, hfin⟩
    · -- a packet has ended: it is taken, sent, and the reading goes on
      have hsize := hsized packet (by rw [hsplit]; simp)
      obtain ⟨g₁, hreach₁, hwait, htaken, hhanded₁, hinput₁⟩ := hoffer.takes hw' hsize
      have hw₁ := working_reaches hw' hreach₁
      obtain ⟨g₂, hreach₂, hreading, hhanded₂, hinput₂⟩ := hwait.reads htaken hw₁
      have hw₂ := working_reaches hw₁ hreach₂
      obtain ⟨g', hreach, hfin⟩ := ih hreading
        (by rw [hhanded₂, hhanded₁, hhanded, hsplit, List.append_assoc, List.singleton_append])
        hw₂ (by rw [hinput₂, hinput₁]; exact hlength)
      exact ⟨g', hread.trans (hreach₁.trans (hreach₂.trans hreach)), hfin⟩

/-- **The gateway can finish.** -/
theorem Serves.finishes (hsized : Sized packets) (h : Serves packets g) (hw : Working g.node) :
    ∃ g', Reaches linuxStep g g' ∧ Finished packets g' := by
  have htaken : ∀ {g : LinuxGateway} {rest : List Bytes}, Working g.node → Waiting rest g →
      (g.sendData = false ∧ g.sendSize = 0) → packets = g.handed ++ rest →
      ∃ g', Reaches linuxStep g g' ∧ Finished packets g' := by
    intro g rest hw hwait htaken hsplit
    obtain ⟨g₁, hreach₁, hreading, hhanded, -⟩ := hwait.reads htaken hw
    obtain ⟨g', hreach, hfin⟩ := hreading.finishes hsized (by rw [hhanded]; exact hsplit)
      (working_reaches hw hreach₁)
    exact ⟨g', hreach₁.trans hreach, hfin⟩
  cases h with
  | reading rest h hsplit => exact h.finishes hsized hsplit hw
  | offering packet rest h hsplit =>
    have hsize := hsized packet (by rw [hsplit]; simp)
    obtain ⟨g₁, hreach₁, hwait, hnow, hhanded, -⟩ := h.takes hw hsize
    obtain ⟨g', hreach, hfin⟩ := htaken (working_reaches hw hreach₁) hwait hnow
      (by rw [hhanded, hsplit, List.append_assoc, List.singleton_append])
    exact ⟨g', hreach₁.trans hreach, hfin⟩
  | taken rest h hnow hsplit => exact htaken hw h hnow hsplit

/-! ## What is handed over -/

/-- Whatever the PC sends: the sizes that are handed over. -/
structure Bounded (g : LinuxGateway) : Prop where
  handed : Sized g.handed
  size_le : g.sendSize.toNat ≤ g.decode.length
  size_zero : g.sendData = false → g.sendSize = 0

/-- The buffers stay within their sizes. -/
theorem Bounded.step (h : Bounded g) (hstep : linuxStep g a = some g') : Bounded g' := by
  cases linuxStep_case hstep with
  | read b rest hreads hinput =>
    unfold LinuxGateway.readByte
    split_ifs
    · refine ⟨h.handed, ?_, by simp⟩
      exact Nat.mod_le _ _
    · exact ⟨h.handed, h.size_le.trans (by simp), h.size_zero⟩
    · exact ⟨h.handed, h.size_le, h.size_zero⟩
    · exact ⟨h.handed, h.size_le.trans (by simp), h.size_zero⟩
  | wait rand hwaits hnone =>
    unfold LinuxGateway.waitRound
    split_ifs with hleave hcall
    · have hzero := h.size_zero hleave.1
      exact ⟨h.handed, by simp [hzero], fun _ => hzero⟩
    · refine ⟨?_, Nat.zero_le _, fun _ => rfl⟩
      intro p hp
      rcases List.mem_append.mp hp with hold | hnew
      · exact h.handed p hold
      · have hlength : p.length = g.sendSize.toNat := by
          rw [List.mem_singleton.mp hnew, List.length_take, Nat.min_eq_left h.size_le]
        rw [hlength]
        refine ⟨?_, g.sendSize.toNat_lt⟩
        rw [Nat.pos_iff_ne_zero]
        exact fun hzero => hcall.2 (UInt8.toNat_inj.mp hzero)
    · exact ⟨h.handed, h.size_le, h.size_zero⟩
  | link node b hcall hcase => exact ⟨h.handed, h.size_le, h.size_zero⟩

theorem bounded_reaches {wi : ℤ} {time : ℕ} {input : Bytes}
    (h : Reaches linuxStep (LinuxGateway.init byteTimeUs wi time input) g) : Bounded g :=
  h.invariant (fun _ _ _ hI hstep => hI.step hstep)
    ⟨List.forall_mem_nil _, le_rfl, fun _ => rfl⟩

theorem working_init (hbyte : 0 < byteTimeUs ∧ byteTimeUs < 2 ^ 16) (wi : ℤ) (time : ℕ) :
    Working (Node.init byteTimeUs 2 gatewayCfg wi time) := by
  have hcfg : gatewayCfg &&& cfgReadWithInterrupt ≠ 0 := by decide
  exact ⟨decide_eq_true hcfg, hbyte.1, hbyte.2, Nat.zero_lt_two, Nat.lt_of_sub_eq_succ rfl,
    Nat.mod_lt _ (by decide)⟩

/-- **Packets of any length.**  In every state the gateway can get to with a stream of frames,
what was handed to the bus is a beginning of the list of packets, and some course of events
leads on to the whole list, with nothing offered any more and the loop left: this holds exactly
when every packet has from 1 to 255 bytes.
SOURCE: linux_bus_gateway.c:126-140, 166-257; framing.rs:6-19 -/
theorem linux_passes_on_iff (byteTimeUs : ℕ) (hbyte : 0 < byteTimeUs ∧ byteTimeUs < 2 ^ 16) (wi : ℤ)
    (time : ℕ) (packets : List (List UInt8)) :
    (∀ g, Reaches linuxStep
        (LinuxGateway.init byteTimeUs wi time (packets.flatMap (frameBytes · 0xff))) g →
      g.handed <+: packets ∧ ∃ g', Reaches linuxStep g g' ∧ Finished packets g') ↔
      ∀ p ∈ packets, 0 < p.length ∧ p.length < 256 := by
  set start := LinuxGateway.init byteTimeUs wi time
    (packets.flatMap (frameBytes · 0xff)) with hstart
  constructor
  · intro h
    obtain ⟨-, g, hreach, hfin⟩ := h start (Reaches.refl start)
    rw [← hfin.handed]
    exact (bounded_reaches hreach).handed
  · intro hsized g hreach
    have hframes : linuxMachine.feed (false, [])
        (packets.flatMap (frame packetEscape (~~~packetEscape))) = ((false, []), packets) :=
      Unstuffer.collector_feed_frames (by decide) packets
    have hwork : Working start.node := working_init hbyte wi time
    have hserves : Serves packets start :=
      .reading packets ⟨rfl, ⟨rfl, rfl⟩, ⟨rfl, rfl⟩, hframes⟩ rfl
    obtain ⟨hw, hg⟩ := hreach.invariant (I := fun g => Working g.node ∧ Serves packets g)
      (fun _ _ _ hI hstep => ⟨working_linuxStep hI.1 hstep, hI.2.step hsized hI.1 hstep⟩)
      ⟨hwork, hserves⟩
    exact ⟨hg.begins, hg.finishes hsized hw⟩

/-- A packet of two bytes is passed on. -/
theorem linux_passes_on_two_bytes :
    ∃ g, Reaches linuxStep (LinuxGateway.init 100 0 0 (frameBytes [7, 0xff] 0xff)) g ∧
      Finished [[7, 0xff]] g :=
  ((linux_passes_on_iff 100 (by decide) 0 0 [[7, 0xff]]).mpr (by decide) _ (Reaches.refl _)).2

/-- Neither the empty packet nor one of 256 bytes is ever passed on. -/
theorem linux_never_passes_on :
    (∀ g, Reaches linuxStep (LinuxGateway.init 100 0 0 (frameBytes [] 0xff)) g →
      ¬ Finished [[]] g) ∧
    ∀ g, Reaches linuxStep (LinuxGateway.init 100 0 0 (frameBytes (List.replicate 256 7) 0xff)) g →
      ¬ Finished [List.replicate 256 7] g := by
  constructor
  · intro g hreach hfin
    have hsize := (bounded_reaches hreach).handed []
      (by rw [hfin.handed]; exact List.mem_singleton_self _)
    exact absurd hsize.1 (Nat.lt_irrefl 0)
  · intro g hreach hfin
    have hsize := (bounded_reaches hreach).handed (List.replicate 256 7)
      (by rw [hfin.handed]; exact List.mem_singleton_self _)
    rw [List.length_replicate] at hsize
    exact absurd hsize.2 (Nat.lt_irrefl 256)

end Uartbus.Analysis
