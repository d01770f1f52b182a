import Mathlib.Data.List.TakeWhile
import Uartbus.Analysis.EndpointMoves
import Uartbus.Interface.EndpointHistory

/-!
# Fan-out of packets

Every session is what the history says of it (`SessionFits`), whichever calls move in which order,
and so nothing that was put to a session before it was closed is lost or repeated.
-/

set_option autoImplicit false

namespace Uartbus.Analysis

open Lib Model Interface

variable {own : List EndpointEvent} {l : EndpointLocal} {e : EndpointEvent}
  {data packet : Bytes} {x' : SessionState}

/-! ## The history of one session -/

section History

variable (log : List (ℕ × EndpointEvent)) (e : ℕ × EndpointEvent) (id : ℕ)

theorem sessionsIn_concat : sessionsIn (log ++ [e]) = sessionsAfter (sessionsIn log) e.2 := by
  simp [sessionsIn]

theorem takenFrom_concat :
    takenFrom id (log ++ [e]) = takenFrom id log ++ (takenBy id e.2).toList := by
  unfold takenFrom
  cases h : takenBy id e.2 <;> simp [h]

theorem closedIn_concat : closedIn id (log ++ [e]) = (closedIn id log || closesSession id e.2) := by
  simp [closedIn]

theorem flagIn_concat (default : Attribute → Bool) (which : Attribute) :
    flagIn default which id (log ++ [e]) =
      flagAfter which id (flagIn default which id log) e.2 := by
  simp [flagIn]

/-- What is put to a closed session does not count any more. -/
theorem putsTo_concat :
    putsTo id (log ++ [e]) =
      if closedIn id log then putsTo id log else putsTo id log ++ (putBy id e.2).toList := by
  unfold putsTo closedIn
  cases hclosed : log.any (fun e => closesSession id e.2) with
  | true =>
    obtain ⟨a, ha, hcloses⟩ := List.any_eq_true.mp hclosed
    rw [if_pos rfl, List.takeWhile_append, if_neg]
    intro hall
    have hself := List.Sublist.eq_of_length
      (List.takeWhile_sublist (fun e : ℕ × EndpointEvent => !closesSession id e.2)) hall
    have := List.takeWhile_eq_self_iff.mp hself a ha
    rw [hcloses] at this
    exact absurd this Bool.false_ne_true
  | false =>
    have hopen : ∀ a ∈ log, (!closesSession id a.2) = true := by
      intro a ha
      have := List.any_eq_false.mp hclosed a ha
      simpa using this
    rw [if_neg Bool.false_ne_true, List.takeWhile_append_of_pos hopen,
      List.takeWhile_eq_self_iff.mpr hopen, List.filterMap_append]
    obtain ⟨i, event⟩ := e
    cases event with
    | sessionClosed id' =>
      cases hid : decide (id' = id) <;> simp [closesSession, putBy, hid]
    | put id' packet =>
      by_cases hid : id' = id <;> simp [closesSession, putBy, hid]
    | _ => simp [closesSession, putBy]

end History

/-- The state of a session; one that has not been created yet is as it will be created. -/
def sessionAt (default : Attribute → Bool) (s : EndpointShared) (id : ℕ) : SessionState :=
  s.created[id]?.getD
    ⟨[], false, default .echoLoopback, default .loopbackSendPackets⟩

/-- A session is what the history says of it. -/
structure SessionFits (default : Attribute → Bool) (log : List (ℕ × EndpointEvent)) (id : ℕ)
    (x : SessionState) : Prop where
  queue : takenFrom id log ++ x.packets = putsTo id log
  closed : x.closed = closedIn id log
  flag : ∀ which, x.flag which = flagIn default which id log

/-- The session whose state an event changes. -/
def subject : EndpointEvent → Option ℕ
  | .put id _ | .took id _ | .attributesSet id _ | .sessionClosed id => some id
  | _ => none

section Fits

variable {default : Attribute → Bool} {log : List (ℕ × EndpointEvent)} {id i : ℕ}
  {x : SessionState} (h : SessionFits default log id x)
include h

/-- An event about another session. -/
theorem SessionFits.frame (he : subject e ≠ some id) :
    SessionFits default (log ++ [(i, e)]) id x := by
  have htaken : takenBy id e = none := by
    cases e with
    | took id' packet => exact if_neg fun heq => he (congrArg some heq)
    | _ => rfl
  have hput : putBy id e = none := by
    cases e with
    | put id' packet => exact if_neg fun heq => he (congrArg some heq)
    | _ => rfl
  have hcloses : closesSession id e = false := by
    cases e with
    | sessionClosed id' => exact decide_eq_false fun heq => he (congrArg some heq)
    | _ => rfl
  refine ⟨?_, ?_, fun which => ?_⟩
  · rw [takenFrom_concat, putsTo_concat, htaken, hput]
    simpa using h.queue
  · rw [closedIn_concat, hcloses, Bool.or_false]
    exact h.closed
  · rw [flagIn_concat]
    have hflag : flagAfter which id (flagIn default which id log) e =
        flagIn default which id log := by
      cases e with
      | attributesSet id' values => exact if_neg fun heq => he (congrArg some heq)
      | _ => rfl
    rw [hflag]
    exact h.flag which

theorem SessionFits.put (packet : Bytes) :
    SessionFits default (log ++ [(i, .put id packet)]) id (x.put packet) := by
  have hflag : ∀ which, (x.put packet).flag which = x.flag which := by
    intro which
    unfold SessionState.put
    split <;> cases which <;> rfl
  have hclosed : (x.put packet).closed = x.closed := by
    unfold SessionState.put
    split <;> rfl
  refine ⟨?_, ?_, fun which => ?_⟩
  · rw [takenFrom_concat, putsTo_concat, ← h.closed, ← h.queue]
    unfold SessionState.put
    cases x.closed <;> simp [takenBy, putBy]
  · rw [closedIn_concat, hclosed, h.closed]
    exact (Bool.or_false _).symm
  · rw [flagIn_concat, hflag, h.flag which]
    rfl

theorem SessionFits.took {packets : List Bytes} (hpackets : x.packets = packet :: packets) :
    SessionFits default (log ++ [(i, .took id packet)]) id { x with packets := packets } := by
  refine ⟨?_, ?_, fun which => ?_⟩
  · have hqueue := h.queue
    rw [hpackets] at hqueue
    rw [takenFrom_concat, putsTo_concat, ← hqueue]
    simp [takenBy, putBy]
  · rw [closedIn_concat]
    exact h.closed.trans (Bool.or_false _).symm
  · rw [flagIn_concat]
    have hflag := h.flag which
    cases which <;> exact hflag

theorem SessionFits.attributesSet (hpackets : x'.packets = x.packets)
    (hclosed : x'.closed = x.closed) :
    SessionFits default (log ++ [(i, .attributesSet id x'.flag)]) id x' := by
  refine ⟨?_, ?_, fun which => ?_⟩
  · rw [takenFrom_concat, putsTo_concat, hpackets]
    simpa [takenBy, putBy] using h.queue
  · rw [closedIn_concat, hclosed, h.closed]
    exact (Bool.or_false _).symm
  · rw [flagIn_concat]
    exact (if_pos rfl).symm

theorem SessionFits.close :
    SessionFits default (log ++ [(i, .sessionClosed id)]) id x.close := by
  refine ⟨?_, ?_, fun which => ?_⟩
  · rw [takenFrom_concat, putsTo_concat]
    simpa [takenBy, putBy, SessionState.close] using h.queue
  · rw [closedIn_concat]
    simp [SessionState.close, closesSession]
  · rw [flagIn_concat]
    have hflag := h.flag which
    cases which <;> exact hflag

end Fits

/-! ## The endpoint -/

/-- The endpoint is what the history says of it. -/
structure EndpointKept (default : Attribute → Bool) (s : EndpointShared)
    (log : List (ℕ × EndpointEvent)) : Prop where
  default_eq : s.defaultEchoLoopback = default .echoLoopback ∧
    s.defaultLoopbackSendPackets = default .loopbackSendPackets
  registered : s.sessions = sessionsIn log
  nodup : s.sessions.Nodup
  known : ∀ id ∈ s.sessions, id < s.created.length
  origin : ∀ id, id < s.created.length → ∃ j, (j, .created id) ∈ log
  session : ∀ id, SessionFits default log id (sessionAt default s id)
  fits : AtEach (FanOutFits default) log

/-- The attributes of a new session. -/
def defaultFlags (echoLoopback loopbackSendPackets : Bool) : Attribute → Bool
  | .echoLoopback => echoLoopback
  | .loopbackSendPackets => loopbackSendPackets

theorem endpointKept_new (echo loopback : Bool) :
    EndpointKept (defaultFlags echo loopback) (EndpointShared.new echo loopback) [] where
  default_eq := ⟨rfl, rfl⟩
  registered := rfl
  nodup := List.nodup_nil
  known := fun _ h => by simp [EndpointShared.new] at h
  origin := fun _ h => by simp [EndpointShared.new] at h
  session := fun id => ⟨rfl, rfl, fun which => by cases which <;> rfl⟩
  fits := atEach_nil _

section Moves

variable {default : Attribute → Bool} {s s' : EndpointShared} {log : List (ℕ × EndpointEvent)}
  {i id : ℕ} {x : SessionState}

variable (default) in
theorem sessionAt_eq (hx : s.created[id]? = some x) : sessionAt default s id = x := by
  rw [sessionAt, hx, Option.getD_some]

variable (h : EndpointKept default s log)
include h

theorem EndpointKept.session_of (hx : s.created[id]? = some x) : SessionFits default log id x := by
  rw [← sessionAt_eq default hx]
  exact h.session id

/-- A move that touches no session. -/
theorem EndpointKept.unchanged (hsubject : subject e = none) (hcreated : s'.created = s.created)
    (hdefault : s'.defaultEchoLoopback = s.defaultEchoLoopback ∧
      s'.defaultLoopbackSendPackets = s.defaultLoopbackSendPackets)
    (hsessions : s'.sessions = sessionsAfter s.sessions e) (hsub : s'.sessions.Sublist s.sessions)
    (hfits : FanOutFits default log (i, e)) : EndpointKept default s' (log ++ [(i, e)]) where
  default_eq := by
    rw [hdefault.1, hdefault.2]
    exact h.default_eq
  registered := by rw [sessionsIn_concat, ← h.registered, hsessions]
  nodup := h.nodup.sublist hsub
  known := fun id hid => by
    rw [hcreated]
    exact h.known id (hsub.subset hid)
  origin := fun id hid => by
    rw [hcreated] at hid
    obtain ⟨j, hj⟩ := h.origin id hid
    exact ⟨j, List.mem_append_left _ hj⟩
  session := fun id => by
    have hsame : sessionAt default s' id = sessionAt default s id := by
      unfold sessionAt
      rw [hcreated]
    rw [hsame]
    exact (h.session id).frame (by simp [hsubject])
  fits := atEach_concat.mpr ⟨h.fits, hfits⟩

/-- A move that changes one session. -/
theorem EndpointKept.withSession (hx : s.created[id]? = some x)
    (hsubject : ∀ id', id ≠ id' → subject e ≠ some id')
    (hsessions : sessionsAfter s.sessions e = s.sessions)
    (hsession : SessionFits default (log ++ [(i, e)]) id x')
    (hfits : FanOutFits default log (i, e)) :
    EndpointKept default (s.withSession id x') (log ++ [(i, e)]) where
  default_eq := h.default_eq
  registered := by
    rw [sessionsIn_concat, ← h.registered, hsessions]
    rfl
  nodup := h.nodup
  known := fun id' hid' => by
    rw [EndpointShared.withSession, List.length_set]
    exact h.known id' hid'
  origin := fun id' hid' => by
    rw [EndpointShared.withSession, List.length_set] at hid'
    obtain ⟨j, hj⟩ := h.origin id' hid'
    exact ⟨j, List.mem_append_left _ hj⟩
  session := fun id' => by
    unfold sessionAt EndpointShared.withSession
    by_cases hid : id = id'
    · subst hid
      rw [List.getElem?_set_self (List.getElem?_eq_some_iff.mp hx).1, Option.getD_some]
      exact hsession
    · rw [List.getElem?_set_ne hid]
      exact (h.session id').frame (hsubject id' hid)
  fits := atEach_concat.mpr ⟨h.fits, hfits⟩

/-- A new session is as `sessionAt` has said. -/
theorem EndpointKept.insertSession :
    EndpointKept default s.insertSession (log ++ [(i, .created s.created.length)]) where
  default_eq := h.default_eq
  registered := by
    rw [sessionsIn_concat, ← h.registered]
    rfl
  nodup := by
    refine List.nodup_append.mpr ⟨h.nodup, by simp, fun a ha b hb => ?_⟩
    have := h.known a ha
    rw [List.mem_singleton.mp hb]
    omega
  known := by
    rw [EndpointShared.insertSession, List.length_append, List.length_singleton]
    exact forall_mem_concat.mpr
      ⟨fun id hid => Nat.lt_succ_of_lt (h.known id hid), Nat.lt_succ_self _⟩
  origin := fun id hid => by
    rw [EndpointShared.insertSession, List.length_append, List.length_singleton] at hid
    by_cases hnew : id = s.created.length
    · rw [hnew]
      exact ⟨i, List.mem_append_right _ (List.mem_singleton_self _)⟩
    · obtain ⟨j, hj⟩ := h.origin id (by omega)
      exact ⟨j, List.mem_append_left _ hj⟩
  session := fun id => by
    have hsame : sessionAt default s.insertSession id = sessionAt default s id := by
      unfold sessionAt EndpointShared.insertSession
      rw [h.default_eq.1, h.default_eq.2]
      by_cases hlt : id < s.created.length
      · rw [List.getElem?_append_left hlt]
      · rw [List.getElem?_append_right (Nat.not_lt.mp hlt),
          List.getElem?_eq_none (Nat.not_lt.mp hlt), List.getElem?_singleton]
        split <;> rfl
    rw [hsame]
    exact (h.session id).frame (fun h => by cases h)
  fits := atEach_concat.mpr ⟨h.fits, trivial⟩

/-- **One move.** -/
theorem EndpointKept.effect {events : List EndpointEvent} (heffect : EndpointEffect s l s' events) :
    EndpointKept default s' (log ++ ownedBy i events) := by
  have hother : ∀ {e : EndpointEvent} {id : ℕ}, subject e = some id →
      ∀ id', id ≠ id' → subject e ≠ some id' := by
    intro e id he id' hne heq
    exact hne (Option.some.inj (he.symm.trans heq))
  cases heffect with
  | silent =>
    rw [ownedBy, List.map_nil, List.append_nil]
    exact h
  | plain he =>
    cases he with
    | sent | sendFailed | refused | notSet =>
      exact h.unchanged rfl rfl ⟨rfl, rfl⟩ rfl (List.Sublist.refl _) trivial
  | copied packet =>
    exact h.unchanged rfl rfl ⟨rfl, rfl⟩ rfl (List.Sublist.refl _) ⟨h.registered, h.nodup⟩
  | loaded which hx =>
    exact h.unchanged rfl rfl ⟨rfl, rfl⟩ rfl (List.Sublist.refl _) ((h.session_of hx).flag which)
  | put packet hx =>
    exact h.withSession hx (hother rfl) rfl ((h.session_of hx).put packet)
      (h.origin _ (List.getElem?_eq_some_iff.mp hx).1)
  | took _ hx hpackets =>
    refine h.withSession hx (hother rfl) rfl ((h.session_of hx).took hpackets) ?_
    have hqueue := (h.session_of hx).queue
    rw [hpackets, List.append_cons] at hqueue
    exact ⟨_, hqueue⟩
  | endOfReceive _ hx hpackets hclosed =>
    have hsession := h.session_of hx
    refine h.withSession hx (fun _ _ h => by cases h) rfl (hsession.frame fun h => by cases h)
      ⟨hsession.closed ▸ hclosed, ?_⟩
    rw [← hsession.queue, hpackets, List.append_nil]
  | attributesSet hx hpackets hclosed =>
    exact h.withSession hx (hother rfl) rfl ((h.session_of hx).attributesSet hpackets hclosed)
      trivial
  | created _ => exact h.insertSession
  | removed _ =>
    exact h.unchanged rfl rfl ⟨rfl, rfl⟩ rfl List.filter_sublist trivial
  | marked => exact h.unchanged rfl rfl ⟨rfl, rfl⟩ rfl (List.Sublist.refl _) trivial
  | emptied _ => exact h.unchanged rfl rfl ⟨rfl, rfl⟩ rfl (List.nil_sublist _) trivial
  | sessionClosed hx =>
    exact h.withSession hx (hother rfl) rfl (h.session_of hx).close trivial

end Moves

/-! ## The calls -/

/-- How far a packet of the gateway has come, and what it has left in the log. -/
inductive HookStage (packet : Bytes) : EndpointLocal → List EndpointEvent → Prop
  | copying : HookStage packet (.copying packet) []
  | putting (done rest : List ℕ) :
      HookStage packet (.putting packet rest)
        (.copied packet (done ++ rest) :: done.map fun id => .put id packet)
  | ended (sessions : List ℕ) :
      HookStage packet .ended (.copied packet sessions :: sessions.map fun id => .put id packet)

/-- What a packet has left in the log that was sent to the sessions of the outcomes, with the rest
of the copied list still to come. -/
def sentSoFar (data : Bytes) (done : List (ℕ × SendOutcome)) (rest : List ℕ) :
    List EndpointEvent :=
  .sent data :: .copied data (done.map Prod.fst ++ rest) :: done.flatMap (sentEvents data)

/-- How far a packet of a client has come, and what it has left in the log. -/
inductive SendStage (data : Bytes) : EndpointLocal → List EndpointEvent → Prop
  | sending : SendStage data (.sending data) []
  | failed : SendStage data .ended [.sendFailed data]
  | copying : SendStage data (.copyingSent data) [.sent data]
  | loadingLoopback (done : List (ℕ × SendOutcome)) (rest : List ℕ) :
      SendStage data (.loadingLoopback data rest) (sentSoFar data done rest)
  | loadingEcho (done : List (ℕ × SendOutcome)) (id : ℕ) (rest : List ℕ) :
      SendStage data (.loadingEcho data id rest)
        (sentSoFar data done (id :: rest) ++ [.loaded .loopbackSendPackets id false])
  | puttingSent (done : List (ℕ × SendOutcome)) (id : ℕ) (rest : List ℕ) (why : SendOutcome)
      (loads : List EndpointEvent) (hwhy : sentEvents data (id, why) = loads ++ [.put id data]) :
      SendStage data (.puttingSent data id rest) (sentSoFar data done (id :: rest) ++ loads)
  | ended (outcomes : List (ℕ × SendOutcome)) :
      SendStage data .ended (sentSoFar data outcomes [])

/-- The packet is done with one more session. -/
theorem sentSoFar_concat (data : Bytes) (done : List (ℕ × SendOutcome)) (rest : List ℕ)
    (id : ℕ) (why : SendOutcome) :
    sentSoFar data done (id :: rest) ++ sentEvents data (id, why) =
      sentSoFar data (done ++ [(id, why)]) rest := by
  simp [sentSoFar, List.flatMap_append]

section Stages

variable {sent : Bool} {s s' : EndpointShared} {l l' : EndpointLocal}
  {own events : List EndpointEvent}

theorem HookStage.step (h : HookStage packet l own)
    (hnext : endpointNext sent s l = some (s', l', events)) :
    HookStage packet l' (own ++ events) := by
  cases h with
  | copying =>
    obtain ⟨-, rfl, rfl⟩ := hnext
    exact .putting [] s.sessions
  | putting done rest =>
    cases rest with
    | nil =>
      obtain ⟨-, rfl, rfl⟩ := hnext
      rw [List.append_nil, List.append_nil]
      exact .ended done
    | cons id rest =>
      obtain ⟨x, -, ⟨-, rfl, rfl⟩⟩ := Option.map_eq_some_iff.mp hnext
      have hstage : HookStage packet _ _ := .putting (done ++ [id]) rest
      simpa using hstage
  | ended sessions => cases hnext

/-- A move of `send_packet` goes on with its events. -/
theorem SendStage.step (h : SendStage data l own)
    (hnext : endpointNext sent s l = some (s', l', events)) :
    SendStage data l' (own ++ events) := by
  cases h with
  | sending =>
    cases sent with
    | true =>
      obtain ⟨-, rfl, rfl⟩ := hnext
      exact .copying
    | false =>
      obtain ⟨-, rfl, rfl⟩ := hnext
      exact .failed
  | failed => cases hnext
  | copying =>
    obtain ⟨-, rfl, rfl⟩ := hnext
    exact .loadingLoopback [] s.sessions
  | loadingLoopback done rest =>
    cases rest with
    | nil =>
      obtain ⟨-, rfl, rfl⟩ := hnext
      rw [List.append_nil]
      exact .ended done
    | cons id rest =>
      obtain ⟨x, -, ⟨-, rfl, rfl⟩⟩ := Option.map_eq_some_iff.mp hnext
      cases x.loopbackSendPackets with
      | true => exact .puttingSent done id rest .byLoopback [_] rfl
      | false => exact .loadingEcho done id rest
  | loadingEcho done id rest =>
    obtain ⟨x, -, ⟨-, rfl, rfl⟩⟩ := Option.map_eq_some_iff.mp hnext
    rw [List.append_assoc]
    cases x.echoLoopback with
    | true => exact .puttingSent done id rest .byEcho _ rfl
    | false =>
      have hskipped := sentSoFar_concat data done rest id .skipped
      rw [sentEvents] at hskipped
      rw [List.singleton_append, hskipped]
      exact .loadingLoopback (done ++ [(id, .skipped)]) rest
  | puttingSent done id rest why loads hwhy =>
    obtain ⟨x, -, ⟨-, rfl, rfl⟩⟩ := Option.map_eq_some_iff.mp hnext
    rw [List.append_assoc, ← hwhy, sentSoFar_concat]
    exact .loadingLoopback (done ++ [(id, why)]) rest
  | ended outcomes => cases hnext

end Stages

/-- Where the calls are that give packets to sessions. -/
def GivesFits (s : EndpointShared) (op : EndpointOp) (l : EndpointLocal)
    (own : List EndpointEvent) :
    Prop :=
  (∀ id ∈ sessionsAhead l, id < s.created.length) ∧
    (∀ packet, op = .packetHook packet → HookStage packet l own) ∧
    ∀ data, op = .sendPacket data → SendStage data l own

theorem endpointThreads_kept (default : Attribute → Bool) :
    endpointThreads.Kept (fun _ _ _ => True) (EndpointKept default) GivesFits where
  enter := by
    intro s log op _
    refine ⟨?_, ?_, ?_⟩
    · cases op <;> exact fun _ h => by cases h
    · rintro packet rfl
      exact .copying
    · rintro data rfl
      exact .sending
  own := by
    intro s log i op l sent s' l' events hI hA _ hnext
    obtain ⟨heffect, hpath⟩ := endpoint_move hnext
    refine ⟨hI.effect heffect, fun id hid => ?_, fun packet hop => ?_, fun data hop => ?_⟩
    · exact (hpath.sessionsAhead_lt hI.known hA.1 id hid).trans_le heffect.created_length
    · exact (hA.2.1 packet hop).step hnext
    · exact (hA.2.2 data hop).step hnext
  other := by
    intro s log i op l sent s' l' events op' m own _ _ hA _ hnext
    exact ⟨fun id hid => (hA.1 id hid).trans_le (endpoint_move hnext).1.created_length, hA.2⟩

/-! ## Every interleaving -/

theorem HookStage.puts (h : HookStage packet l own) :
    ∃ events, HookPuts packet events ∧ own <+: events ∧ (l = .ended → own = events) := by
  cases h with
  | copying => exact ⟨_, ⟨[], rfl⟩, List.nil_prefix, by simp⟩
  | putting done rest =>
    refine ⟨_, ⟨done ++ rest, rfl⟩, ?_, by simp⟩
    exact ⟨rest.map fun id => .put id packet, by simp⟩
  | ended sessions => exact ⟨_, ⟨sessions, rfl⟩, List.prefix_rfl, fun _ => rfl⟩

/-- Whatever becomes of the sessions that are left, what has been logged is a beginning. -/
theorem sentSoFar_prefix (data : Bytes) (done : List (ℕ × SendOutcome)) (rest : List ℕ) :
    ∃ events, SendPuts data events ∧ sentSoFar data done rest <+: events := by
  refine ⟨_, .inr ⟨done ++ rest.map fun id => (id, .skipped), rfl⟩, ?_⟩
  have hids : (rest.map fun id => (id, SendOutcome.skipped)).map Prod.fst = rest := by
    rw [List.map_map]
    exact List.map_id rest
  rw [List.map_append, hids, List.flatMap_append, sentSoFar]
  exact ⟨(rest.map fun id => (id, SendOutcome.skipped)).flatMap (sentEvents data), by simp⟩

/-- What a `send_packet` has done is the beginning of what it does in all. -/
theorem SendStage.puts (h : SendStage data l own) :
    ∃ events, SendPuts data events ∧ own <+: events ∧ (l = .ended → own = events) := by
  -- a session that is being dealt with is done with as soon as its events are complete
  have hpart : ∀ done id rest why (loads tail : List EndpointEvent),
      sentEvents data (id, why) = loads ++ tail →
        ∃ events, SendPuts data events ∧ sentSoFar data done (id :: rest) ++ loads <+: events := by
    intro done id rest why loads tail hwhy
    obtain ⟨events, hputs, hprefix⟩ := sentSoFar_prefix data (done ++ [(id, why)]) rest
    refine ⟨events, hputs, List.IsPrefix.trans ⟨tail, ?_⟩ hprefix⟩
    rw [List.append_assoc, ← hwhy, sentSoFar_concat]
  cases h with
  | sending => exact ⟨_, .inl rfl, List.nil_prefix, by simp⟩
  | failed => exact ⟨_, .inl rfl, List.prefix_rfl, fun _ => rfl⟩
  | copying => exact ⟨_, .inr ⟨[], rfl⟩, ⟨[.copied data []], rfl⟩, by simp⟩
  | loadingLoopback done rest =>
    obtain ⟨events, hputs, hprefix⟩ := sentSoFar_prefix data done rest
    exact ⟨events, hputs, hprefix, by simp⟩
  | loadingEcho done id rest =>
    obtain ⟨events, hputs, hprefix⟩ := hpart done id rest .skipped [_] _ rfl
    exact ⟨events, hputs, hprefix, by simp⟩
  | puttingSent done id rest why loads hwhy =>
    obtain ⟨events, hputs, hprefix⟩ := hpart done id rest why loads _ hwhy
    exact ⟨events, hputs, hprefix, by simp⟩
  | ended outcomes =>
    refine ⟨_, .inr ⟨outcomes, rfl⟩, ?_, fun _ => ?_⟩
    · rw [sentSoFar, List.append_nil]
    · rw [sentSoFar, List.append_nil]

/-- A call that gives a packet to sessions never has to wait. -/
theorem gives_moves {s : EndpointShared} (sent : Bool)
    (hahead : ∀ id ∈ sessionsAhead l, id < s.created.length)
    (h : (∃ packet, HookStage packet l own) ∨ ∃ data, SendStage data l own) :
    l = .ended ∨ ∃ m, endpointNext sent s l = some m := by
  have hgives : l = .ended ∨ settled l = false ∧ needs l = sessionsAhead l := by
    obtain ⟨packet, h⟩ | ⟨data, h⟩ := h
    · cases h with
      | copying | putting => exact .inr ⟨rfl, rfl⟩
      | ended => exact .inl rfl
    · cases h with
      | sending | copying | loadingLoopback | loadingEcho | puttingSent => exact .inr ⟨rfl, rfl⟩
      | failed | ended => exact .inl rfl
  refine hgives.imp_right fun ⟨hsettled, hneeds⟩ => endpoint_moves sent ?_ hsettled
  rw [hneeds]
  exact hahead

/-- A call of `take` on a closed session does not wait: it returns what is left in the queue, and
the error only when nothing is left. -/
theorem take_closed {p : Pool EndpointOp EndpointShared EndpointLocal EndpointEvent} {i id : ℕ}
    {op : EndpointOp} {x : SessionState} (hcall : p.calls[i]? = some (op, .taking id))
    (hx : p.shared.created[id]? = some x) (hclosed : x.closed = true) (sent : Bool) :
    ∃ p', endpointThreads.step p (.move i sent) = some p' ∧
      p'.log = p.log ++ [(i, lastTaken id x.packets)] := by
  obtain ⟨s', hmove⟩ : ∃ s', endpointNext sent p.shared (.taking id) =
      some (s', .ended, [lastTaken id x.packets]) := by
    rw [endpointNext, hx, Option.bind_some, takeMove, SessionState.take]
    cases hpackets : x.packets with
    | cons packet packets => exact ⟨_, rfl⟩
    | nil =>
      rw [hclosed]
      exact ⟨_, rfl⟩
  exact ⟨_, Threads.step_move hcall hmove, rfl⟩

/-- **Fan-out loses and duplicates nothing.**  In every interleaving of the calls of an endpoint:
what has been taken from a session, followed by its queue, is what was put to it before it was
closed; every entry of the history is as `FanOutFits` says; a packet of the gateway is put once to
every session that was registered when the list was copied, and a packet that was sent once to those
of them with one of the attributes set; these calls never wait; and a closed session returns what is
left in its queue before the error.
SOURCE: rpc/endpoint.rs:31-60, 126-214 -/
theorem fan_out_exact (echo loopback : Bool) (turns : List (Turn EndpointOp Bool))
    (p : Pool EndpointOp EndpointShared EndpointLocal EndpointEvent)
    (hrun : run endpointThreads.step (Pool.start (EndpointShared.new echo loopback)) turns =
      some p) :
    (∀ id x, p.shared.created[id]? = some x →
      takenFrom id p.log ++ x.packets = putsTo id p.log ∧ x.closed = closedIn id p.log) ∧
    AtEach (FanOutFits (defaultFlags echo loopback)) p.log ∧
    (∀ i packet l, p.calls[i]? = some (.packetHook packet, l) →
      (∃ events, HookPuts packet events ∧ callEvents i p.log <+: events ∧
        (l = .ended → callEvents i p.log = events)) ∧
      (l = .ended ∨ ∀ sent, ∃ p', endpointThreads.step p (.move i sent) = some p')) ∧
    (∀ i data l, p.calls[i]? = some (.sendPacket data, l) →
      (∃ events, SendPuts data events ∧ callEvents i p.log <+: events ∧
        (l = .ended → callEvents i p.log = events)) ∧
      (l = .ended ∨ ∀ sent, ∃ p', endpointThreads.step p (.move i sent) = some p')) ∧
    ∀ i op id x, p.calls[i]? = some (op, .taking id) → p.shared.created[id]? = some x →
      x.closed = true → ∀ sent, ∃ p', endpointThreads.step p (.move i sent) = some p' ∧
        p'.log = p.log ++ [(i, lastTaken id x.packets)] := by
  obtain ⟨hkept, hcalls, -⟩ :=
    (endpointThreads_kept _).run_all (endpointKept_new echo loopback) hrun
  have hmoves : ∀ i op l, p.calls[i]? = some (op, l) →
      (∀ sent, l = .ended ∨ ∃ m, endpointNext sent p.shared l = some m) →
        l = .ended ∨ ∀ sent, ∃ p', endpointThreads.step p (.move i sent) = some p' := by
    intro i op l hi h
    by_cases hended : l = .ended
    · exact .inl hended
    · refine .inr fun sent => ?_
      obtain ⟨m, hm⟩ := (h sent).resolve_left hended
      exact ⟨_, Threads.step_move hi hm⟩
  refine ⟨fun id x hx => ?_, hkept.fits, fun i packet l hi => ?_, fun i data l hi => ?_,
    fun i op id x hi hx hclosed sent => take_closed hi hx hclosed sent⟩
  · exact ⟨(hkept.session_of hx).queue, (hkept.session_of hx).closed⟩
  · obtain ⟨hahead, hhook, -⟩ := hcalls i _ l hi
    have hstage := hhook packet rfl
    exact ⟨hstage.puts, hmoves i _ l hi fun sent =>
      gives_moves sent hahead (.inl ⟨packet, hstage⟩)⟩
  · obtain ⟨hahead, -, hsend⟩ := hcalls i _ l hi
    have hstage := hsend data rfl
    exact ⟨hstage.puts, hmoves i _ l hi fun sent =>
      gives_moves sent hahead (.inr ⟨data, hstage⟩)⟩

/-- Two sessions of which the second asks for the sent packets, a packet of the gateway, a packet of
a client, and the first one is closed before it takes its packet. -/
def fanOutTurns : List (Turn EndpointOp Bool) :=
  [.enter .newSession, .move 0 true, .move 0 true, .enter .newSession, .move 1 true, .move 1 true,
    .enter (.setAttribute 1 "echo_loopback" " TRUE "), .move 2 true,
    .enter (.packetHook [7]), .move 3 true, .move 3 true, .enter (.sendPacket [8]), .move 4 true,
    .move 4 true, .move 3 true, .move 3 true, .enter (.closeSession 0), .move 5 true, .move 4 true,
    .move 4 true, .move 4 true, .move 4 true, .move 4 true, .move 4 true, .enter (.takeCall 0),
    .move 6 true]

/-- In `fanOutTurns` session 0 has taken the packet of the gateway, and session 1 was given both. -/
theorem fan_out_exact_two_sessions :
    ∃ p, run endpointThreads.step (Pool.start (EndpointShared.new false false)) fanOutTurns =
      some p ∧
      takenFrom 0 p.log = [[7]] ∧ putsTo 1 p.log = [[7], [8]] ∧
      AtEach (FanOutFits (defaultFlags false false)) p.log := by
  obtain ⟨p, hrun, htaken, hputs⟩ : ∃ p, run endpointThreads.step
      (Pool.start (EndpointShared.new false false)) fanOutTurns = some p ∧
        takenFrom 0 p.log = [[7]] ∧ putsTo 1 p.log = [[7], [8]] := by
    refine ⟨_, rfl, ?_, ?_⟩ <;> decide
  exact ⟨p, hrun, htaken, hputs, (fan_out_exact false false fanOutTurns p hrun).2.1⟩

end Uartbus.Analysis
