import Uartbus.Interface.BusHistory

/-!
# Each received packet has one fate

The state of the bus is what its history says (`BusKept`): every move that changes a list leaves
the event that changes it in the history, and the requests stand in the order of their numbers, so
that the first one that accepts a packet is the earliest.
-/

set_option autoImplicit false

namespace Uartbus.Analysis

open Lib Model Interface

variable {parsed : ParsedUartBusPacket} {events own : List BusEvent} {l l' : BusLocal}
  {raw : Bytes} {s s' : BusShared} {sent : Bool}

/-! ## Pairing -/

/-- A response is accepted by its addresses and its path. -/
theorem tryAcceptResponse_iff (t : TransactionState) (p : Packet) :
    t.tryAcceptResponse p = true ↔ Matches t p := by
  unfold TransactionState.tryAcceptResponse Matches
  by_cases haddress : p.toAddress ≠ t.fromAddress ∨ p.fromAddress ≠ t.toAddress
  · rw [if_pos haddress]
    refine iff_of_false Bool.false_ne_true ?_
    rintro ⟨hto, hfrom, -⟩
    exact haddress.elim (fun h => h hto) fun h => h hfrom
  · rw [not_or, not_not, not_not] at haddress
    rw [if_neg (by simp [haddress])]
    simp only [haddress, true_and]
    cases t.zeroNamespaceAnswer with
    | false =>
      simp only [Bool.false_eq_true, if_false, Nat.add_zero, false_and, List.drop_zero,
        List.nil_append]
      constructor
      · intro h
        split at h
        · exact absurd h Bool.false_ne_true
        · exact ⟨_, by rw [← of_decide_eq_true h, List.take_append_drop]⟩
      · rintro ⟨rest, hrest⟩
        rw [← hrest, if_neg (by simp), List.take_left, decide_eq_true rfl]
    | true =>
      simp only [if_true, true_and, List.singleton_append]
      cases p.payload with
      | nil => simp
      | cons b payload =>
        simp only [List.length_cons, List.getD_cons_zero, List.drop_succ_cons, List.drop_zero,
          List.cons_prefix_cons]
        constructor
        · intro h
          split at h
          · exact absurd h Bool.false_ne_true
          split at h
          · exact absurd h Bool.false_ne_true
          next hzero =>
            exact ⟨(not_not.mp hzero).symm,
              ⟨_, by rw [← of_decide_eq_true h, List.take_append_drop]⟩⟩
        · rintro ⟨hzero, rest, hrest⟩
          rw [← hrest, if_neg (by simp), if_neg (not_not.mpr hzero.symm), List.take_left,
            decide_eq_true rfl]

/-- Requests with increasing numbers: taking the first that satisfies `q` out is taking out the
one with its number. -/
theorem eraseP_eq_filter {α : Type} {l : List (ℕ × α)} {q : ℕ × α → Bool} {t : ℕ × α}
    (hordered : l.Pairwise fun a b => a.1 < b.1) (hfind : l.find? q = some t) :
    l.eraseP q = l.filter fun a => decide (a.1 ≠ t.1) := by
  induction l with
  | nil => cases hfind
  | cons a l ih =>
    rw [List.pairwise_cons] at hordered
    cases ha : q a with
    | true =>
      rw [List.find?_cons_of_pos ha] at hfind
      obtain rfl := Option.some.inj hfind
      rw [List.eraseP_cons_of_pos ha, List.filter_cons_of_neg (by simp),
        List.filter_eq_self.mpr]
      intro b hb
      have := hordered.1 b hb
      simp only [decide_eq_true_eq]
      omega
    | false =>
      have ha' : ¬ q a = true := by simp [ha]
      rw [List.find?_cons_of_neg ha'] at hfind
      have hne : a.1 ≠ t.1 := by
        have := hordered.1 t (List.mem_of_find?_eq_some hfind)
        omega
      rw [List.eraseP_cons_of_neg ha', List.filter_cons_of_pos (by simpa using hne),
        ih hordered.2 hfind]

/-! ## The history -/

section History

variable (log : List (ℕ × BusEvent)) (e : ℕ × BusEvent)

theorem pendingIn_concat : pendingIn (log ++ [e]) = pendingAfter (pendingIn log) e.2 := by
  simp [pendingIn]

theorem unrelatedIn_concat : unrelatedIn (log ++ [e]) = unrelatedAfter (unrelatedIn log) e.2 := by
  simp [unrelatedIn]

theorem responsesIn_concat (id : ℕ) :
    responsesIn id (log ++ [e]) = responsesIn id log ++ (responseOf id e).toList := by
  unfold responsesIn
  cases h : responseOf id e <;> simp [h]

variable {log e}

theorem responsesIn_concat_none {id : ℕ} (h : responseOf id e = none) :
    responsesIn id (log ++ [e]) = responsesIn id log := by
  rw [responsesIn_concat, h, Option.toList_none, List.append_nil]

end History

/-- The state is the one that the history describes. -/
structure BusKept (s : BusShared) (log : List (ℕ × BusEvent)) : Prop where
  pending : s.bus.pendingRequests = pendingIn log
  ordered : s.bus.pendingRequests.Pairwise fun a b => a.1 < b.1
  fresh : ∀ t ∈ s.bus.pendingRequests, t.1 < s.bus.nextId
  unrelated : s.unrelatedPackets = unrelatedIn log
  fates : AtEach FateFits log
  response : ∀ id, (responsesIn id log).length ≤ 1 ∧ s.response id = (responsesIn id log).head?
  unanswered : ∀ id, (∃ t ∈ s.bus.pendingRequests, t.1 = id) ∨ s.bus.nextId ≤ id →
    responsesIn id log = []

theorem busKept_build (fromAddress : ℤ) : BusKept (BusShared.build fromAddress) [] where
  pending := rfl
  ordered := List.Pairwise.nil
  fresh := by simp [BusShared.build]
  unrelated := rfl
  fates := atEach_nil _
  response := fun _ => ⟨by simp [responsesIn], rfl⟩
  unanswered := fun _ _ => rfl

section Moves

variable {s s' : BusShared} {log : List (ℕ × BusEvent)} {i : ℕ} {event : BusEvent}

/-- An event that sets no response. -/
theorem BusKept.concat (h : BusKept s log) (hfits : FateFits log (i, event))
    (hpending : s'.bus.pendingRequests = pendingAfter s.bus.pendingRequests event)
    (hordered : s'.bus.pendingRequests.Pairwise fun a b => a.1 < b.1)
    (hnext : s.bus.nextId ≤ s'.bus.nextId)
    (hfresh : ∀ t ∈ s'.bus.pendingRequests,
      t.1 < s'.bus.nextId ∧ (t ∈ s.bus.pendingRequests ∨ s.bus.nextId ≤ t.1))
    (hunrelated : s'.unrelatedPackets = unrelatedAfter s.unrelatedPackets event)
    (hresponse : s'.response = s.response) (hnone : ∀ id, responseOf id (i, event) = none) :
    BusKept s' (log ++ [(i, event)]) where
  pending := by rw [pendingIn_concat, ← h.pending, hpending]
  ordered := hordered
  fresh := fun t ht => (hfresh t ht).1
  unrelated := by rw [unrelatedIn_concat, ← h.unrelated, hunrelated]
  fates := atEach_concat.mpr ⟨h.fates, hfits⟩
  response := fun id => by
    rw [responsesIn_concat_none (hnone id), hresponse]
    exact h.response id
  unanswered := fun id hid => by
    rw [responsesIn_concat_none (hnone id)]
    refine h.unanswered id ?_
    rcases hid with ⟨t, ht, rfl⟩ | hid
    · exact (hfresh t ht).2.imp (fun hmem => ⟨t, hmem, rfl⟩) id
    · exact .inr (hnext.trans hid)

/-- An event that leaves the requests as they are. -/
theorem BusKept.quiet (h : BusKept s log) (hfits : FateFits log (i, event)) (hbus : s'.bus = s.bus)
    (hpending : pendingAfter s.bus.pendingRequests event = s.bus.pendingRequests)
    (hunrelated : s'.unrelatedPackets = unrelatedAfter s.unrelatedPackets event)
    (hresponse : s'.response = s.response) (hnone : ∀ id, responseOf id (i, event) = none) :
    BusKept s' (log ++ [(i, event)]) := by
  refine h.concat hfits ?_ ?_ ?_ ?_ hunrelated hresponse hnone
  · rw [hbus, hpending]
  · rw [hbus]
    exact h.ordered
  · rw [hbus]
  · rw [hbus]
    exact fun t ht => ⟨h.fresh t ht, .inl ht⟩

theorem BusKept.register (h : BusKept s log) (state : TransactionState) :
    BusKept
      { s with bus := (s.bus.register state.fromAddress state.toAddress state.path
          state.zeroNamespaceAnswer).1 }
      (log ++ [(i, .registered s.bus.nextId state)]) := by
  refine h.concat trivial rfl ?_ (Nat.le_succ _) ?_ rfl rfl fun _ => rfl
  · refine List.pairwise_append.mpr ⟨h.ordered, List.pairwise_singleton _ _, fun a ha b hb => ?_⟩
    rw [List.mem_singleton.mp hb]
    exact h.fresh a ha
  · exact forall_mem_concat.mpr ⟨fun t ht => ⟨Nat.lt_succ_of_lt (h.fresh t ht), .inl ht⟩,
      Nat.lt_succ_self _, .inr (Nat.le_refl _)⟩

theorem BusKept.revoke (h : BusKept s log) (id : ℕ) :
    BusKept { s with bus := s.bus.revokePendingRequest id } (log ++ [(i, .revoked id)]) := by
  refine h.concat trivial rfl (h.ordered.filter _) (Nat.le_refl _) ?_ rfl rfl fun _ => rfl
  intro t ht
  have hmem := (List.mem_filter.mp ht).1
  exact ⟨h.fresh t hmem, .inl hmem⟩

/-- A packet is given to the first request that accepts it. -/
theorem BusKept.accept (h : BusKept s log) {t : ℕ × TransactionState}
    (hfind : s.bus.pendingRequests.find? (fun t => t.2.tryAcceptResponse parsed.packet) = some t) :
    BusKept
      { s with
          bus := { s.bus with
            pendingRequests :=
              s.bus.pendingRequests.eraseP (fun t => t.2.tryAcceptResponse parsed.packet) }
          response := Function.update s.response t.1 (some parsed.payload) }
      (log ++ [(i, .accepted t.1 parsed)]) := by
  have hmem := List.mem_of_find?_eq_some hfind
  have hnothing := h.unanswered t.1 (.inl ⟨t, hmem, rfl⟩)
  have herase := eraseP_eq_filter h.ordered hfind
  have hother : ∀ {id}, t.1 ≠ id → responsesIn id (log ++ [(i, .accepted t.1 parsed)]) =
      responsesIn id log := fun hne => responsesIn_concat_none (if_neg hne)
  refine
    { pending := ?_, ordered := ?_, fresh := ?_, unrelated := ?_, fates := ?_, response := ?_,
      unanswered := ?_ }
  · rw [pendingIn_concat, ← h.pending]
    exact herase
  · rw [herase]
    exact h.ordered.filter _
  · rw [herase]
    exact fun a ha => h.fresh a (List.mem_filter.mp ha).1
  · rw [unrelatedIn_concat]
    exact h.unrelated
  · refine atEach_concat.mpr ⟨h.fates, ?_⟩
    obtain ⟨haccepts, earlier, later, hsplit, hbefore⟩ := List.find?_eq_some_iff_append.mp hfind
    refine ⟨earlier, t.2, later, ?_, (tryAcceptResponse_iff _ _).mp haccepts, fun a ha hmatch => ?_⟩
    · rw [← h.pending]
      exact hsplit
    · have := hbefore a ha
      rw [(tryAcceptResponse_iff _ _).mpr hmatch] at this
      exact absurd this Bool.false_ne_true
  · intro id
    by_cases hid : t.1 = id
    · subst hid
      rw [responsesIn_concat, hnothing]
      simp [responseOf]
    · rw [hother hid]
      refine ⟨(h.response id).1, ?_⟩
      rw [← (h.response id).2]
      exact Function.update_of_ne (Ne.symm hid) _ _
  · intro id hid
    have hne : t.1 ≠ id := by
      rintro rfl
      rcases hid with ⟨a, ha, heq⟩ | hid
      · rw [herase] at ha
        exact of_decide_eq_true (List.mem_filter.mp ha).2 heq
      · exact absurd (h.fresh t hmem) (Nat.not_lt.mpr hid)
    rw [hother hne]
    refine h.unanswered id (hid.imp_left ?_)
    rintro ⟨a, ha, rfl⟩
    rw [herase] at ha
    exact ⟨a, (List.mem_filter.mp ha).1, rfl⟩

/-- The critical section of `process_packet`. -/
theorem BusKept.pair (h : BusKept s log) (parsed : ParsedUartBusPacket) :
    BusKept (s.pair parsed).1 (log ++ ownedBy i (s.pair parsed).2.2) := by
  unfold BusShared.pair UartBus.processPacket
  cases hfind : s.bus.pendingRequests.find? (fun t => t.2.tryAcceptResponse parsed.packet) with
  | some t => exact h.accept hfind
  | none =>
    refine h.quiet ?_ rfl rfl rfl rfl fun _ => rfl
    intro t ht hmatch
    rw [← h.pending] at ht
    rw [List.find?_eq_none] at hfind
    exact hfind t ht ((tryAcceptResponse_iff _ _).mpr hmatch)

end Moves

/-! ## The calls -/

/-- How far a call with a parsable packet has come, and what it has left in the log. -/
inductive PacketStage (raw : Bytes) (parsed : ParsedUartBusPacket) :
    BusLocal → List BusEvent → Prop
  | receiving : PacketStage raw parsed (.receiving raw) []
  | pairing : PacketStage raw parsed (.pairing parsed) []
  | given (id : ℕ) : PacketStage raw parsed .ended [.accepted id parsed]
  | copying : PacketStage raw parsed (.copying .unrelated parsed.rawPacket) [.unmatched parsed]
  | calling (done rest : List Listener) :
      PacketStage raw parsed (.calling parsed.rawPacket rest)
        (.unmatched parsed :: .copied .unrelated (done ++ rest) ::
          done.map fun l => .called l parsed.rawPacket)
  | called (listeners : List Listener) :
      PacketStage raw parsed .ended
        (.unmatched parsed :: .copied .unrelated listeners ::
          listeners.map fun l => .called l parsed.rawPacket)

/-- The stage of a call, if it is one of `process_packet` with a good packet. -/
def CallFits (_ : BusShared) (op : BusOp) (l : BusLocal) (own : List BusEvent) : Prop :=
  ∀ raw data parsed, op = .processPacket raw → getValidPacket raw = some data →
    ParsedUartBusPacket.new data = .ok parsed → PacketStage raw parsed l own

/-- A move of such a call. -/
theorem PacketStage.step {data : Bytes} (hvalid : getValidPacket raw = some data)
    (hparsed : ParsedUartBusPacket.new data = .ok parsed) (h : PacketStage raw parsed l own)
    (hnext : busNext sent s l = some (s', l', events)) :
    PacketStage raw parsed l' (own ++ events) := by
  cases h with
  | receiving =>
    simp only [busNext, receivePacket, hvalid, hparsed, Option.some.injEq, Prod.mk.injEq] at hnext
    obtain ⟨-, rfl, rfl⟩ := hnext
    exact .pairing
  | pairing =>
    rw [busNext, BusShared.pair] at hnext
    cases hpair : s.bus.processPacket parsed.packet with
    | mk bus taker =>
      cases taker with
      | some id =>
        simp only [hpair, Option.some.injEq, Prod.mk.injEq] at hnext
        obtain ⟨-, rfl, rfl⟩ := hnext
        exact .given id
      | none =>
        simp only [hpair, Option.some.injEq, Prod.mk.injEq] at hnext
        obtain ⟨-, rfl, rfl⟩ := hnext
        exact .copying
  | given id => cases hnext
  | copying =>
    obtain ⟨-, rfl, rfl⟩ := hnext
    exact .calling [] _
  | calling done rest =>
    cases rest with
    | nil =>
      obtain ⟨-, rfl, rfl⟩ := hnext
      rw [List.append_nil, List.append_nil]
      exact .called done
    | cons listener rest =>
      obtain ⟨-, rfl, rfl⟩ := hnext
      have hstage : PacketStage raw parsed _ _ := .calling (done ++ [listener]) rest
      simpa using hstage
  | called listeners => cases hnext

/-- Every move keeps the state and its history in step. -/
theorem BusKept.move {log : List (ℕ × BusEvent)} {i : ℕ} (h : BusKept s log)
    (hnext : busNext sent s l = some (s', l', events)) : BusKept s' (log ++ ownedBy i events) := by
  have hsilent : BusKept s (log ++ ownedBy i []) := by simpa [ownedBy] using h
  cases l with
  | building toAddress path payload zero =>
    obtain ⟨rfl, -, rfl⟩ := hnext
    exact hsilent
  | registering state packet =>
    obtain ⟨rfl, -, rfl⟩ := hnext
    exact h.register state
  | sending id packet =>
    obtain ⟨rfl, -, rfl⟩ := hnext
    cases sent <;> exact h.quiet trivial rfl rfl rfl rfl fun _ => rfl
  | holding id =>
    obtain ⟨rfl, -, rfl⟩ := hnext
    exact h.revoke id
  | receiving raw =>
    rw [busNext, receivePacket] at hnext
    split at hnext
    · obtain ⟨rfl, -, rfl⟩ := hnext
      exact hsilent
    · split at hnext
      all_goals
        obtain ⟨rfl, -, rfl⟩ := hnext
        first | exact hsilent | exact h.quiet trivial rfl rfl rfl rfl fun _ => rfl
  | pairing parsed =>
    rw [busNext, Option.some.injEq] at hnext
    have hpair := h.pair (i := i) parsed
    rw [hnext] at hpair
    exact hpair
  | copying kind data =>
    obtain ⟨rfl, -, rfl⟩ := hnext
    refine h.quiet ?_ rfl rfl rfl rfl fun _ => rfl
    cases kind with
    | unrelated => exact h.unrelated
    | invalid => trivial
  | calling data listeners =>
    cases listeners with
    | nil | cons _ _ =>
      obtain ⟨rfl, -, rfl⟩ := hnext
      first | exact hsilent | exact h.quiet trivial rfl rfl rfl rfl fun _ => rfl
  | numbering kind listener =>
    obtain ⟨rfl, -, rfl⟩ := hnext
    exact ⟨hsilent.pending, hsilent.ordered, hsilent.fresh, hsilent.unrelated, hsilent.fates,
      hsilent.response, hsilent.unanswered⟩
  | pushing kind entry =>
    obtain ⟨rfl, -, rfl⟩ := hnext
    cases kind <;> exact h.quiet trivial rfl rfl rfl rfl fun _ => rfl
  | removing id =>
    obtain ⟨rfl, -, rfl⟩ := hnext
    exact h.quiet trivial rfl rfl rfl rfl fun _ => rfl
  | ended => cases hnext

theorem busThreads_kept : busThreads.Kept (fun _ _ _ => True) BusKept CallFits where
  enter := by
    rintro s log op - raw data parsed rfl - -
    exact .receiving
  own := by
    intro s log i op l sent s' l' events hI hA _ hnext
    refine ⟨hI.move hnext, fun raw data parsed hop hvalid hparsed => ?_⟩
    exact (hA raw data parsed hop hvalid hparsed).step hvalid hparsed hnext
  other := fun _ _ _ _ _ _ _ _ _ _ _ _ _ _ hA _ _ => hA

/-- The whole of what a call leaves in the log. -/
theorem PacketStage.oneFate (h : PacketStage raw parsed l own) :
    ∃ fate, OneFate parsed fate ∧ own <+: fate ∧ (l = .ended → own = fate) := by
  have hgiven : OneFate parsed [.accepted 0 parsed] := .inl ⟨0, rfl⟩
  cases h with
  | receiving | pairing => exact ⟨_, hgiven, List.nil_prefix, by simp⟩
  | given id => exact ⟨_, .inl ⟨id, rfl⟩, List.prefix_rfl, fun _ => rfl⟩
  | copying => exact ⟨_, .inr ⟨[], rfl⟩, ⟨[.copied .unrelated []], rfl⟩, by simp⟩
  | calling done rest =>
    refine ⟨_, .inr ⟨done ++ rest, rfl⟩, ?_, by simp⟩
    exact ⟨rest.map fun l => .called l parsed.rawPacket, by simp⟩
  | called listeners => exact ⟨_, .inr ⟨listeners, rfl⟩, List.prefix_rfl, fun _ => rfl⟩

/-- **Each received packet has one fate.**  In every interleaving of the calls of a client bus: the
requests that are pending are those of the history; a packet is given to the earliest of them that
it matches and to the listeners only when it matches none; a call with a good packet gives it to one
transaction, or once to each of the listeners; and a transaction has at most one response, the
payload of a packet that was given to it.
SOURCE: rpc/bus.rs:42-121, 242-338 -/
theorem packet_has_one_fate (fromAddress : ℤ) (turns : List (Turn BusOp Bool))
    (p : Pool BusOp BusShared BusLocal BusEvent)
    (hrun : run busThreads.step (Pool.start (BusShared.build fromAddress)) turns = some p) :
    p.shared.bus.pendingRequests = pendingIn p.log ∧ AtEach FateFits p.log ∧
      (∀ i raw data parsed l, p.calls[i]? = some (.processPacket raw, l) →
        getValidPacket raw = some data → ParsedUartBusPacket.new data = .ok parsed →
          ∃ fate, OneFate parsed fate ∧ callEvents i p.log <+: fate ∧
            (l = .ended → callEvents i p.log = fate)) ∧
      ∀ id, (responsesIn id p.log).length ≤ 1 ∧
        p.shared.response id = (responsesIn id p.log).head? := by
  obtain ⟨hkept, hcalls, -⟩ := busThreads_kept.run_all (busKept_build fromAddress) hrun
  refine ⟨hkept.pending, hkept.fates, fun i raw data parsed l hi hvalid hparsed => ?_,
    hkept.response⟩
  exact (hcalls i _ l hi raw data parsed rfl hvalid hparsed).oneFate

/-- Two requests wait for the answer of a ping. -/
def pingTurns : List (Turn BusOp Bool) :=
  [.enter (.subscribeResponse ⟨5, 63, [1], true⟩), .enter (.subscribeResponse ⟨5, 63, [], true⟩),
    .move 1 true, .move 0 true, .enter (.processPacket [63, 5, 0, 1, 0, 174]), .move 2 true,
    .move 2 true]

/-- The one that was registered first gets it. -/
theorem packet_has_one_fate_ping :
    ∃ p, run busThreads.step (Pool.start (BusShared.build 63)) pingTurns = some p ∧
      p.shared.response 0 = some [0, 1, 0] ∧ (responsesIn 0 p.log).length ≤ 1 ∧
      p.shared.bus.pendingRequests = pendingIn p.log := by
  obtain ⟨p, hrun, hresponse⟩ : ∃ p, run busThreads.step (Pool.start (BusShared.build 63))
      pingTurns = some p ∧ p.shared.response 0 = some [0, 1, 0] := ⟨_, rfl, rfl⟩
  have hfate := packet_has_one_fate 63 pingTurns p hrun
  exact ⟨p, hrun, hresponse, (hfate.2.2.2 0).1, hfate.1⟩

end Uartbus.Analysis
