import Uartbus.Model.Endpoint

/-!
# The moves of the endpoint

What one move of a call does is said once: to the endpoint (`EndpointEffect`) and to the call itself
(`EndpointPath`).  The invariants of the endpoint are case analyses over these two.
-/

set_option autoImplicit false

namespace Uartbus.Analysis

open Lib Model

variable {s s' : EndpointShared} {events : List EndpointEvent} {l l' : EndpointLocal}
  {x : SessionState}

/-- Events that change nothing in the endpoint. -/
inductive PlainEvent : EndpointEvent → Prop
  | sent (data : Bytes) : PlainEvent (.sent data)
  | sendFailed (data : Bytes) : PlainEvent (.sendFailed data)
  | refused : PlainEvent .refused
  | notSet (id : ℕ) (text : String) : PlainEvent (.notSet id text)

/-- The endpoint after a move in a local state, and the events of the move. -/
inductive EndpointEffect (s : EndpointShared) (l : EndpointLocal) :
    EndpointShared → List EndpointEvent → Prop
  | silent : EndpointEffect s l s []
  | plain {e : EndpointEvent} (he : PlainEvent e) : EndpointEffect s l s [e]
  | copied (packet : Bytes) : EndpointEffect s l s [.copied packet s.sessions]
  | loaded (which : Attribute) {id : ℕ} {x : SessionState} (hx : s.created[id]? = some x) :
      EndpointEffect s l s [.loaded which id (x.flag which)]
  | put (packet : Bytes) {id : ℕ} {x : SessionState} (hx : s.created[id]? = some x) :
      EndpointEffect s l (s.withSession id (x.put packet)) [.put id packet]
  | took {id : ℕ} {x : SessionState} {packet : Bytes} {packets : List Bytes}
      (hl : l = .taking id) (hx : s.created[id]? = some x)
      (hpackets : x.packets = packet :: packets) :
      EndpointEffect s l (s.withSession id { x with packets := packets }) [.took id packet]
  | endOfReceive {id : ℕ} {x : SessionState} (hl : l = .taking id) (hx : s.created[id]? = some x)
      (hpackets : x.packets = []) (hclosed : x.closed = true) :
      EndpointEffect s l (s.withSession id x) [.endOfReceive id]
  | attributesSet {id : ℕ} {x x' : SessionState} (hx : s.created[id]? = some x)
      (hpackets : x'.packets = x.packets) (hclosed : x'.closed = x.closed) :
      EndpointEffect s l (s.withSession id x') [.attributesSet id x'.flag]
  | created (hl : l = .inserting) :
      EndpointEffect s l s.insertSession [.created s.created.length]
  | removed {id : ℕ} (hl : l = .removing id) :
      EndpointEffect s l { s with sessions := s.sessions.filter fun i => decide (i ≠ id) }
        [.removed id]
  | marked : EndpointEffect s l { s with closed := true } [.marked]
  | emptied (hl : l = .emptying) :
      EndpointEffect s l { s with sessions := [] } [.emptied s.sessions]
  | sessionClosed {id : ℕ} {x : SessionState} (hx : s.created[id]? = some x) :
      EndpointEffect s l (s.withSession id x.close) [.sessionClosed id]

/-- `set_attribute` leaves the queue alone. -/
theorem setAttribute_ok {x' : SessionState} {key value : String}
    (h : x.setAttribute key value = .ok x') : x'.packets = x.packets ∧ x'.closed = x.closed := by
  unfold SessionState.setAttribute at h
  cases hparse : parseBool value with
  | some set =>
    simp only [hparse] at h
    split at h
    on_goal 2 => split at h
    all_goals
      rw [← Except.ok.inj h]
      exact ⟨rfl, rfl⟩
  | none =>
    simp only [hparse] at h
    split at h
    · cases h
    split at h
    · cases h
    · rw [← Except.ok.inj h]
      exact ⟨rfl, rfl⟩

/-- A move of `take`. -/
theorem takeMove_cases {id : ℕ} (hx : s.created[id]? = some x)
    (h : takeMove s id x = some (s', l', events)) :
    EndpointEffect s (.taking id) s' events ∧ l' = .ended := by
  unfold takeMove SessionState.take at h
  cases hpackets : x.packets with
  | cons packet packets =>
    simp only [hpackets, Option.some.injEq, Prod.mk.injEq] at h
    obtain ⟨rfl, rfl, rfl⟩ := h
    exact ⟨.took rfl hx hpackets, rfl⟩
  | nil =>
    cases hclosed : x.closed with
    | true =>
      simp only [hpackets, hclosed, if_true, Option.some.injEq, Prod.mk.injEq] at h
      obtain ⟨rfl, rfl, rfl⟩ := h
      exact ⟨.endOfReceive rfl hx hpackets hclosed, rfl⟩
    | false => simp [hpackets, hclosed] at h

/-- From one local state to the next. -/
inductive EndpointPath (s : EndpointShared) : EndpointLocal → EndpointLocal → Prop
  | ended {l : EndpointLocal} : EndpointPath s l .ended
  | copied (packet : Bytes) : EndpointPath s (.copying packet) (.putting packet s.sessions)
  | put (packet : Bytes) (id : ℕ) (sessions : List ℕ) :
      EndpointPath s (.putting packet (id :: sessions)) (.putting packet sessions)
  | sent (data : Bytes) : EndpointPath s (.sending data) (.copyingSent data)
  | copiedSent (data : Bytes) :
      EndpointPath s (.copyingSent data) (.loadingLoopback data s.sessions)
  | byLoopback (data : Bytes) (id : ℕ) (sessions : List ℕ) :
      EndpointPath s (.loadingLoopback data (id :: sessions)) (.puttingSent data id sessions)
  | toEcho (data : Bytes) (id : ℕ) (sessions : List ℕ) :
      EndpointPath s (.loadingLoopback data (id :: sessions)) (.loadingEcho data id sessions)
  | byEcho (data : Bytes) (id : ℕ) (sessions : List ℕ) :
      EndpointPath s (.loadingEcho data id sessions) (.puttingSent data id sessions)
  | skipped (data : Bytes) (id : ℕ) (sessions : List ℕ) :
      EndpointPath s (.loadingEcho data id sessions) (.loadingLoopback data sessions)
  | putSent (data : Bytes) (id : ℕ) (sessions : List ℕ) :
      EndpointPath s (.puttingSent data id sessions) (.loadingLoopback data sessions)
  | checked : EndpointPath s .checking .inserting
  | opened : EndpointPath s .inserting (.opened s.created.length)
  | removed {id : ℕ} (hid : id < s.created.length) : EndpointPath s (.removing id) (.closing [id])
  | marked : EndpointPath s .marking .closingConnector
  | closedConnector : EndpointPath s .closingConnector .emptying
  | emptied : EndpointPath s .emptying (.closing s.sessions)
  | closedOne (id : ℕ) (sessions : List ℕ) :
      EndpointPath s (.closing (id :: sessions)) (.closing sessions)

/-- **What a move can do.** -/
theorem endpoint_move {sent : Bool} (h : endpointNext sent s l = some (s', l', events)) :
    EndpointEffect s l s' events ∧ EndpointPath s l l' := by
  cases l with
  | copying packet =>
    obtain ⟨rfl, rfl, rfl⟩ := h
    exact ⟨.copied packet, .copied packet⟩
  | putting packet sessions =>
    cases sessions with
    | nil =>
      obtain ⟨rfl, rfl, rfl⟩ := h
      exact ⟨.silent, .ended⟩
    | cons id sessions =>
      obtain ⟨x, hx, ⟨rfl, rfl, rfl⟩⟩ := Option.map_eq_some_iff.mp h
      exact ⟨.put packet hx, .put packet id sessions⟩
  | sending data =>
    cases sent with
    | true =>
      obtain ⟨rfl, rfl, rfl⟩ := h
      exact ⟨.plain (.sent data), .sent data⟩
    | false =>
      obtain ⟨rfl, rfl, rfl⟩ := h
      exact ⟨.plain (.sendFailed data), .ended⟩
  | copyingSent data =>
    obtain ⟨rfl, rfl, rfl⟩ := h
    exact ⟨.copied data, .copiedSent data⟩
  | loadingLoopback data sessions =>
    cases sessions with
    | nil =>
      obtain ⟨rfl, rfl, rfl⟩ := h
      exact ⟨.silent, .ended⟩
    | cons id sessions =>
      obtain ⟨x, hx, ⟨rfl, rfl, rfl⟩⟩ := Option.map_eq_some_iff.mp h
      refine ⟨.loaded .loopbackSendPackets hx, ?_⟩
      cases x.loopbackSendPackets with
      | true => exact .byLoopback data id sessions
      | false => exact .toEcho data id sessions
  | loadingEcho data id sessions =>
    obtain ⟨x, hx, ⟨rfl, rfl, rfl⟩⟩ := Option.map_eq_some_iff.mp h
    refine ⟨.loaded .echoLoopback hx, ?_⟩
    cases x.echoLoopback with
    | true => exact .byEcho data id sessions
    | false => exact .skipped data id sessions
  | puttingSent data id sessions =>
    obtain ⟨x, hx, ⟨rfl, rfl, rfl⟩⟩ := Option.map_eq_some_iff.mp h
    exact ⟨.put data hx, .putSent data id sessions⟩
  | checking =>
    obtain ⟨rfl, rfl, rfl⟩ := h
    cases s.closed with
    | true => exact ⟨.plain .refused, .ended⟩
    | false => exact ⟨.silent, .checked⟩
  | inserting =>
    obtain ⟨rfl, rfl, rfl⟩ := h
    exact ⟨.created rfl, .opened⟩
  | removing id =>
    obtain ⟨x, hx, ⟨rfl, rfl, rfl⟩⟩ := Option.map_eq_some_iff.mp h
    exact ⟨.removed rfl, .removed (List.getElem?_eq_some_iff.mp hx).1⟩
  | taking id =>
    obtain ⟨x, hx, hmove⟩ := Option.bind_eq_some_iff.mp h
    obtain ⟨heffect, rfl⟩ := takeMove_cases hx hmove
    exact ⟨heffect, .ended⟩
  | setting id key value =>
    obtain ⟨x, hx, hmove⟩ := Option.map_eq_some_iff.mp h
    cases hset : x.setAttribute key value with
    | ok x' =>
      rw [hset] at hmove
      obtain ⟨rfl, rfl, rfl⟩ := hmove
      exact ⟨.attributesSet hx (setAttribute_ok hset).1 (setAttribute_ok hset).2, .ended⟩
    | error text =>
      rw [hset] at hmove
      obtain ⟨rfl, rfl, rfl⟩ := hmove
      exact ⟨.plain (.notSet id text), .ended⟩
  | marking =>
    obtain ⟨rfl, rfl, rfl⟩ := h
    exact ⟨.marked, .marked⟩
  | closingConnector =>
    obtain ⟨rfl, rfl, rfl⟩ := h
    exact ⟨.silent, .closedConnector⟩
  | emptying =>
    obtain ⟨rfl, rfl, rfl⟩ := h
    exact ⟨.emptied rfl, .emptied⟩
  | closing sessions =>
    cases sessions with
    | nil =>
      obtain ⟨rfl, rfl, rfl⟩ := h
      exact ⟨.silent, .ended⟩
    | cons id sessions =>
      obtain ⟨x, hx, ⟨rfl, rfl, rfl⟩⟩ := Option.map_eq_some_iff.mp h
      exact ⟨.sessionClosed hx, .closedOne id sessions⟩
  | closingSession id =>
    obtain ⟨x, hx, ⟨rfl, rfl, rfl⟩⟩ := Option.map_eq_some_iff.mp h
    exact ⟨.sessionClosed hx, .ended⟩
  | opened | ended => cases h

/-- Sessions are never forgotten. -/
theorem EndpointEffect.created_length (h : EndpointEffect s l s' events) :
    s.created.length ≤ s'.created.length := by
  cases h <;> simp [EndpointShared.withSession, EndpointShared.insertSession]

/-! ## The sessions of a call -/

/-- The sessions that a call has still to do with. -/
def sessionsAhead : EndpointLocal → List ℕ
  | .putting _ sessions | .loadingLoopback _ sessions | .closing sessions => sessions
  | .loadingEcho _ id sessions | .puttingSent _ id sessions => id :: sessions
  | _ => []

/-- A call has to do with registered sessions, and later with fewer of them. -/
theorem EndpointPath.sessionsAhead_lt (h : EndpointPath s l l')
    (hsessions : ∀ id ∈ s.sessions, id < s.created.length)
    (hl : ∀ id ∈ sessionsAhead l, id < s.created.length) :
    ∀ id ∈ sessionsAhead l', id < s.created.length := by
  cases h with
  | copied | copiedSent | emptied => exact hsessions
  | byLoopback | toEcho | byEcho => exact hl
  | put | skipped | putSent | closedOne => exact fun j hj => hl j (List.mem_cons_of_mem _ hj)
  | removed hid =>
    intro j hj
    rw [List.mem_singleton.mp hj]
    exact hid
  | ended | sent | checked | opened | marked | closedConnector => exact fun _ h => by cases h

/-- The sessions that have to exist for the next move: also the one that the call was entered for.
-/
def needs : EndpointLocal → List ℕ
  | .removing id | .taking id | .setting id _ _ | .closingSession id => [id]
  | l => sessionsAhead l

/-- The call has returned, or it waits for a packet. -/
def settled : EndpointLocal → Bool
  | .taking _ | .opened _ | .ended => true
  | _ => false

/-- Only `take` has to wait. -/
theorem endpoint_moves (sent : Bool) (hneeds : ∀ id ∈ needs l, id < s.created.length)
    (hl : settled l = false) : ∃ m, endpointNext sent s l = some m := by
  have hsession : ∀ {β : Type} (f : SessionState → β) (id : ℕ), id ∈ needs l →
      ∃ m, s.created[id]?.map f = some m := by
    intro β f id hid
    rw [List.getElem?_eq_getElem (hneeds id hid)]
    exact ⟨_, rfl⟩
  cases l with
  | putting _ sessions | loadingLoopback _ sessions | closing sessions =>
    cases sessions with
    | nil => exact ⟨_, rfl⟩
    | cons id sessions => exact hsession _ id (List.mem_cons_self ..)
  | sending => cases sent <;> exact ⟨_, rfl⟩
  | loadingEcho _ id | puttingSent _ id | removing id | setting id | closingSession id =>
    exact hsession _ id (List.mem_cons_self ..)
  | copying | copyingSent | checking | inserting | marking | closingConnector | emptying =>
    exact ⟨_, rfl⟩
  | taking | opened | ended => cases hl

end Uartbus.Analysis
