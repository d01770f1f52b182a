import Uartbus.Analysis.OwnSession

/-!
# A client connection of the server

The traces that the handler has queued are, in their order, those the pump is done with, the one it
works on, and those in the channel (`Pairs`).  The pump is done with a trace exactly when it has
taken from the session for it, so the responses pair the requests with what was taken.  The handler
works on one request at a time (`HandlerFits`).
-/

set_option autoImplicit false

namespace Uartbus.Analysis

open Lib Model Interface

variable {request : Value} {e : ServerEvent} {failure trace : Option String} {pool : EndpointPool}
  {s : EndpointShared} {l : EndpointLocal} {handler : HandlerLocal} {log : List ServerEvent}
  {written : List Value} {session : Option ℕ} {call id : ℕ}

/-! ## Requests and responses -/

theorem withTrace_trace {fields : List (String × Value)} (h : findField "t" fields = none)
    (trace : Option String) : (withTrace fields trace).get "t" = trace.map .string := by
  cases trace with
  | none => exact h
  | some trace => exact findField_insertField "t" (.string trace) fields

theorem findField_insertField_nil {key : String} (h : key ≠ "t") (value : Value) :
    findField "t" (insertField key value []) = none :=
  if_neg h

theorem resultResponse_trace (trace : Option String) (result : Value) :
    (resultResponse trace result).get "t" = trace.map .string :=
  withTrace_trace (findField_insertField_nil (by decide) _) trace

theorem errorResponse_trace (trace : Option String) (kind message : String) :
    (errorResponse trace kind message).get "t" = trace.map .string :=
  withTrace_trace (findField_insertField_nil (by decide) _) trace

theorem responseTo_trace (request : Value) (result : Except (String × String) Value) :
    CarriesTrace request (responseTo request result) := by
  cases result with
  | ok value => exact resultResponse_trace _ _
  | error e => exact errorResponse_trace _ _ _

theorem nextPacketResponse_trace (trace : Option String) (result : Except String Bytes) :
    (nextPacketResponse trace result).get "t" = trace.map .string := by
  cases result with
  | ok packet => exact resultResponse_trace _ _
  | error text => exact errorResponse_trace _ _ _

theorem requestAction_of_asks (h : AsksNextPacket request) :
    requestAction request = .useSession .getNextPacket := by
  unfold requestAction
  rw [if_neg (not_not.mpr h.1), h.2]
  rfl

theorem asks_of_requestAction (h : requestAction request = .useSession .getNextPacket) :
    AsksNextPacket request := by
  unfold requestAction at h
  split at h
  · cases h
  next hnamespace =>
    refine ⟨not_not.mp hnamespace, ?_⟩
    split at h
    next hfunction => cases h
    next hfunction =>
      unfold sendPacketAction at h
      split at h
      · cases h
      · split at h <;> cases h
    next hfunction => cases h
    next hfunction =>
      unfold getAttributeAction at h
      split at h <;> cases h
    next hfunction =>
      unfold setAttributeAction at h
      split at h
      · cases h
      · split at h <;> cases h
    next hfunction => exact hfunction
    next hfunction => cases h
    next => cases h

/-! ## The pump -/

/-- What was taken from the session of the client. -/
def takenBySession (session : Option ℕ) (log : List (ℕ × EndpointEvent)) :
    List (Except String Bytes) :=
  session.elim [] fun id => resultsOf id log

theorem takenBySession_eq {log log' : List (ℕ × EndpointEvent)}
    (h : ∀ id, session = some id → resultsOf id log' = resultsOf id log) :
    takenBySession session log' = takenBySession session log := by
  cases session with
  | none => rfl
  | some id => exact h id rfl

/-- The queued traces are those that something was taken for and those ahead; the responses of the
first ones are `written`. -/
def Pairs (log : List ServerEvent) (results : List (Except String Bytes))
    (ahead : List (Option String)) (written : List Value) : Prop :=
  ∃ done : List (Option String), done.length = results.length ∧
    (queuedIn log).map traceOf = done ++ ahead ∧
    written = List.zipWith nextPacketResponse done results

def PumpFits (log : List ServerEvent) (results : List (Except String Bytes))
    (channel : List (Option String)) : PumpLocal → Prop
  | .waiting => Pairs log results channel (pumpedIn log)
  | .taking trace => Pairs log results (trace :: channel) (pumpedIn log)
  | .writing response => Pairs log results channel (pumpedIn log ++ [response])
  | .stopped => ∃ ahead written, Pairs log results ahead written ∧ pumpedIn log <+: written

theorem queuedIn_concat (h : queuedBy e = none) : queuedIn (log ++ [e]) = queuedIn log := by
  simp [queuedIn, h]

theorem pumpedIn_concat (h : pumpedBy e = none) : pumpedIn (log ++ [e]) = pumpedIn log := by
  simp [pumpedIn, h]

section Pump

variable {log : List ServerEvent} {results : List (Except String Bytes)}
  {channel : List (Option String)} {pump : PumpLocal}

theorem PumpFits.pairs (h : PumpFits log results channel pump) :
    ∃ ahead written, Pairs log results ahead written ∧ pumpedIn log <+: written := by
  cases pump with
  | waiting => exact ⟨_, _, h, List.prefix_rfl⟩
  | taking trace => exact ⟨_, _, h, List.prefix_rfl⟩
  | writing response => exact ⟨_, _, h, List.prefix_append _ _⟩
  | stopped => exact h

/-- An event that the pump has nothing to do with. -/
theorem PumpFits.event (h : PumpFits log results channel pump) (hqueued : queuedBy e = none)
    (hpumped : pumpedBy e = none) : PumpFits (log ++ [e]) results channel pump := by
  unfold PumpFits Pairs at h ⊢
  rw [queuedIn_concat hqueued, pumpedIn_concat hpumped]
  exact h

/-- One more request for the pump. -/
theorem Pairs.queued {ahead : List (Option String)} (h : Pairs log results ahead written)
    (request : Value) :
    Pairs (log ++ [.queued request]) results (ahead ++ [traceOf request]) written := by
  obtain ⟨done, hlength, htraces, hwritten⟩ := h
  refine ⟨done, hlength, ?_, hwritten⟩
  have hq : queuedIn (log ++ [.queued request]) = queuedIn log ++ [request] := by
    simp [queuedIn, queuedBy]
  rw [hq, List.map_append, htraces, List.append_assoc]
  rfl

theorem PumpFits.queued (h : PumpFits log results channel pump) (request : Value) :
    PumpFits (log ++ [.queued request]) results (channel ++ [traceOf request]) pump := by
  unfold PumpFits
  rw [pumpedIn_concat rfl]
  cases pump with
  | waiting => exact Pairs.queued h request
  | taking trace => exact Pairs.queued h request
  | writing response => exact Pairs.queued h request
  | stopped =>
    obtain ⟨ahead, written, hpairs, hpre⟩ := h
    exact ⟨_, written, hpairs.queued request, hpre⟩

/-- The pump has taken for the trace. -/
theorem Pairs.took (h : Pairs log results (trace :: channel) written)
    (result : Except String Bytes) :
    Pairs log (results ++ [result]) channel (written ++ [nextPacketResponse trace result]) := by
  obtain ⟨done, hlength, htraces, hwritten⟩ := h
  refine ⟨done ++ [trace], ?_, ?_, ?_⟩
  · rw [List.length_append, List.length_append, hlength]
    rfl
  · rw [htraces, List.append_assoc]
    rfl
  · rw [List.zipWith_append hlength, hwritten]
    rfl

end Pump

/-! ## The handler -/

/-- `new_session` has not inserted its session yet. -/
def opening : EndpointLocal → Bool
  | .checking | .inserting => true
  | _ => false

/-- The call can move; it creates a session only when the client has none. -/
structure Running (session : Option ℕ) (s : EndpointShared) (l : EndpointLocal) : Prop where
  settled : settled l = false
  needs : ∀ id ∈ needs l, id < s.created.length
  opening : opening l = true → session = none

def HandlerCallFits (session : Option ℕ) (pool : EndpointPool) (call : ℕ) : Prop :=
  ∃ op l, pool.calls[call]? = some (op, l) ∧ Running session pool.shared l

/-- The request that is not answered yet; every answer so far could be written. -/
def WorksOn (request : Option Value) (log : List ServerEvent) : Prop :=
  openIn log = request ∧ ∀ e ∈ log, answerFails e = false

def HandlerFits (session : Option ℕ) (pool : EndpointPool) (log : List ServerEvent) :
    HandlerLocal → Prop
  | .reading => WorksOn none log
  | .handling request => WorksOn (some request) log
  | .calling request call =>
    WorksOn (some request) log ∧ HandlerCallFits session pool call ∧
      (AsksNextPacket request → session = none)
  | .writing request response =>
    WorksOn (some request) log ∧ CarriesTrace request response ∧
      (AsksNextPacket request → (∀ e ∈ log, writeFails e = false) → queuedIn log = [])
  | .removing call => HandlerCallFits session pool call ∧ session ≠ none
  | .leaving | .ended => True

theorem WorksOn.concat {request : Option Value} (h : WorksOn request log)
    (hanswer : answerFails e = false) : WorksOn (openAfter request e) (log ++ [e]) := by
  refine ⟨?_, forall_mem_concat.mpr ⟨h.2, hanswer⟩⟩
  rw [← h.1]
  simp [openIn]

section Handler

variable {session : Option ℕ} {pool : EndpointPool} {log : List ServerEvent}
  {handler : HandlerLocal}

/-- The handler does not see what the pump writes. -/
theorem HandlerFits.event (h : HandlerFits session pool log handler)
    (hopen : ∀ request, openAfter request e = request) (hanswer : answerFails e = false)
    (hqueued : queuedBy e = none) : HandlerFits session pool (log ++ [e]) handler := by
  have hworks : ∀ {request}, WorksOn request log → WorksOn request (log ++ [e]) := by
    intro request hworks
    have hconcat := hworks.concat hanswer
    rwa [hopen] at hconcat
  unfold HandlerFits at h ⊢
  rw [queuedIn_concat hqueued]
  cases handler with
  | reading | handling => exact hworks h
  | calling => exact ⟨hworks h.1, h.2⟩
  | writing =>
    refine ⟨hworks h.1, h.2.1, fun hasks hwrites => ?_⟩
    exact h.2.2 hasks (forall_mem_concat.mp hwrites).1
  | removing | leaving | ended => exact h

/-- Another call of the endpoint does not disturb the one of the handler. -/
theorem HandlerFits.other (h : HandlerFits session pool log handler) {pool' : EndpointPool}
    (hcall : ∀ call, handler.call = some call → HandlerCallFits session pool call →
      HandlerCallFits session pool' call) : HandlerFits session pool' log handler := by
  cases handler with
  | calling request call => exact ⟨h.1, hcall call rfl h.2.1, h.2.2⟩
  | removing call => exact ⟨hcall call rfl h.1, h.2⟩
  | reading | handling | writing | leaving | ended => exact h

/-- A call that the handler enters for its session. -/
theorem running_session (hneeds : needs l = [id]) (hsettled : settled l = false)
    (hopening : opening l = false) (hid : id < s.created.length) : Running session s l where
  settled := hsettled
  needs := fun id' hid' => by
    rw [hneeds] at hid'
    rw [List.mem_singleton.mp hid']
    exact hid
  opening := fun h => by
    rw [hopening] at h
    cases h

theorem Running.mono {s' : EndpointShared} (h : Running session s l)
    (hlength : s.created.length ≤ s'.created.length) : Running session s' l :=
  ⟨h.settled, fun id hid => (h.needs id hid).trans_le hlength, h.opening⟩

/-- A move of the call: it goes on, or it has returned. -/
theorem Running.path {l' : EndpointLocal} (h : Running session s l)
    (hsessions : ∀ id ∈ s.sessions, id < s.created.length) (hpath : EndpointPath s l l') :
    (∃ id, l' = .opened id ∧ session = none) ∨ l' = .ended ∨ Running session s l' := by
  have hahead : ∀ id ∈ sessionsAhead l, id < s.created.length := by
    intro id hid
    refine h.needs id ?_
    cases l with
    | removing | taking | setting | closingSession => cases hid
    | _ => exact hid
  have hnext := hpath.sessionsAhead_lt hsessions hahead
  have hopening := h.opening
  cases hpath with
  | ended => exact .inr (.inl rfl)
  | opened => exact .inl ⟨_, rfl, hopening rfl⟩
  | checked => exact .inr (.inr ⟨rfl, hnext, hopening⟩)
  | copied | put | sent | copiedSent | byLoopback | toEcho | byEcho | skipped | putSent | removed
  | marked | closedConnector | emptied | closedOne =>
    exact Or.inr (Or.inr ⟨rfl, hnext, fun h => by cases h⟩)

theorem HandlerCallFits.enter (h : HandlerCallFits session pool call) (op : EndpointOp) :
    HandlerCallFits session { pool with calls := pool.calls ++ [(op, endpointThreads.enter op)] }
      call := by
  obtain ⟨op', l, hcall, hrunning⟩ := h
  refine ⟨op', l, ?_, hrunning⟩
  rw [List.getElem?_append_left (List.getElem?_eq_some_iff.mp hcall).1]
  exact hcall

end Handler

/-! ## The connection -/

structure ConnectionKept (default : Attribute → Bool) (c : ClientConnection) : Prop where
  pool : PoolKept default c.session c.pool
  handler : HandlerFits c.session c.pool c.log c.handler
  pump : PumpFits c.log (takenBySession c.session c.pool.log) (c.nextPacketRequests.getD []) c.pump
  fits : AtEach ServerFits c.log
  unstarted : c.nextPacketRequests = none → queuedIn c.log = []
  sessionless : c.session = none → c.nextPacketRequests = none
  stopped : c.pump.hasStopped = true →
    (∃ e ∈ c.log, writeFails e = true) ∨ c.handler.hasEnded = true

section Steps

variable {default : Attribute → Bool} {c c' : ClientConnection}

theorem hasEnded_eq (h : c.handler = handler) (hended : handler.hasEnded = false) :
    c.handler.hasEnded = false := by
  rw [h]
  exact hended

/-- What was taken as number `k` is the packet that was put as number `k`, or the end of receive. -/
theorem PoolKept.result (h : PoolKept default session pool) {k : ℕ}
    {result : Except String Bytes} (hresult : (resultsOf id pool.log)[k]? = some result) :
    (∃ packet, (putsTo id pool.log)[k]? = some packet ∧ result = .ok packet) ∨
      closedIn id pool.log = true ∧ (putsTo id pool.log)[k]? = none ∧
        result = .error endOfReceive := by
  have hkept := h.holds.1
  obtain ⟨ends, hresults, hends⟩ := resultsOf_eq id hkept.fits
  have hqueue := (hkept.session id).queue
  rw [hresults] at hresult
  by_cases hk : k < (takenFrom id pool.log).length
  · rw [List.getElem?_append_left (by rwa [List.length_map]), List.getElem?_map,
      List.getElem?_eq_getElem hk] at hresult
    refine .inl ⟨(takenFrom id pool.log)[k], ?_, (Option.some.inj hresult).symm⟩
    rw [← hqueue, List.getElem?_append_left hk, List.getElem?_eq_getElem hk]
  · have hge := Nat.not_lt.mp hk
    rw [List.getElem?_append_right (by rwa [List.length_map])] at hresult
    obtain ⟨hlt, heq⟩ := List.getElem?_eq_some_iff.mp hresult
    rw [List.length_replicate] at hlt
    obtain ⟨hclosed, htaken⟩ := hends (Nat.zero_lt_of_lt hlt)
    refine .inr ⟨hclosed, ?_, ?_⟩
    · rw [← htaken]
      exact List.getElem?_eq_none hge
    · rw [← heq, List.getElem_replicate]

variable (h : ConnectionKept default c)
include h

/-- Calls of the endpoint that are not of this client. -/
theorem ConnectionKept.endpoint {turn : Turn EndpointOp Bool} (hforeign : c.foreign turn = true)
    (hstep : endpointThreads.step c.pool turn = some pool) :
    ConnectionKept default { c with pool := pool } := by
  rcases Threads.step_cases hstep with ⟨op, rfl, rfl⟩ |
    ⟨i, sent, op, l, s', l', events, rfl, hi, hnext, rfl⟩
  · have hop : ∀ id, op = .takeCall id →
        id < c.pool.shared.created.length ∧ c.session ≠ some id := by
      rintro id rfl
      simpa [ClientConnection.foreign, EndpointOp.session] using hforeign
    exact { h with
      pool := h.pool.enter hop
      handler := HandlerFits.other h.handler fun call _ hfits => hfits.enter op }
  · obtain ⟨hpool, hresults⟩ := h.pool.move hi hnext
    have hpump := h.pump
    rw [← takenBySession_eq fun id hid => hresults id (.inl hid)] at hpump
    refine { h with pool := hpool, handler := HandlerFits.other h.handler ?_, pump := hpump }
    rintro call hcall ⟨op', m, hm, hrunning⟩
    have hne : i ≠ call := by
      rintro rfl
      rw [ClientConnection.foreign, hcall] at hforeign
      simp at hforeign
    refine ⟨op', m, ?_, hrunning.mono (endpoint_move hnext).1.created_length⟩
    rw [List.getElem?_set_ne hne]
    exact hm

/-- A pump that stops while the handler works has failed to write. -/
theorem ConnectionKept.stopped_fails (hended : c.handler.hasEnded = false)
    (hstopped : c.pump.hasStopped = true) : ∃ e ∈ c.log, writeFails e = true := by
  rcases h.stopped hstopped with hfails | hend
  · exact hfails
  · rw [hended] at hend
    cases hend

/-- The handler writes next. -/
theorem ConnectionKept.respond
    (hopen : WorksOn (some request) c.log)
    (hended : c.handler.hasEnded = false)
    (hasks : AsksNextPacket request → (∀ e ∈ c.log, writeFails e = false) → queuedIn c.log = [])
    (result : Except (String × String) Value) : ConnectionKept default (c.respond request result) :=
  { h with
    handler := ⟨hopen, responseTo_trace request result, hasks⟩
    stopped := fun hstopped => .inl (h.stopped_fails hended hstopped) }

/-- The handler calls the endpoint. -/
theorem ConnectionKept.enterCall {op : EndpointOp} {handler : ℕ → HandlerLocal}
    (hended : c.handler.hasEnded = false)
    (hop : Running c.session c.pool.shared (endpointThreads.enter op))
    (hhandler : ∀ pool call, HandlerCallFits c.session pool call →
      HandlerFits c.session pool c.log (handler call))
    (hstep : c.enterCall op handler = some c') : ConnectionKept default c' := by
  obtain rfl := Option.some.inj hstep
  have htake : ∀ id, op = .takeCall id →
      id < c.pool.shared.created.length ∧ c.session ≠ some id := by
    rintro id rfl
    cases hop.settled
  exact { h with
    pool := h.pool.enter htake
    handler := hhandler _ _ ⟨op, _, List.getElem?_concat_length, hop⟩
    stopped := fun hstopped => .inl (h.stopped_fails hended hstopped) }

/-- The request is left to the pump. -/
theorem ConnectionKept.queued
    (hopen : WorksOn (some request) c.log)
    (hended : c.handler.hasEnded = false) (hasks : AsksNextPacket request)
    (hsession : c.session = some id) :
    ConnectionKept default
      { c with
          nextPacketRequests := some (c.nextPacketRequests.getD [] ++ [traceOf request])
          handler := .reading
          log := c.log ++ [.queued request] } where
  pool := h.pool
  handler := hopen.concat rfl
  pump := h.pump.queued request
  fits := atEach_concat.mpr ⟨h.fits, hopen.1, hasks⟩
  unstarted := by simp
  sessionless := fun hnone => by
    rw [hsession] at hnone
    cases hnone
  stopped := fun hstopped => by
    obtain ⟨e, he, hfails⟩ := h.stopped_fails hended hstopped
    exact .inl ⟨e, List.mem_append_left _ he, hfails⟩

/-- `queue_next_packet` -/
theorem ConnectionKept.queueNextPacket
    (hopen : WorksOn (some request) c.log)
    (hended : c.handler.hasEnded = false) (hasks : AsksNextPacket request)
    (hsession : c.session = some id) (failure : Option String) :
    ConnectionKept default (c.queueNextPacket failure request) := by
  have hqueued := h.queued hopen hended hasks hsession
  unfold ClientConnection.queueNextPacket
  cases hrequests : c.nextPacketRequests with
  | none =>
    rw [hrequests] at hqueued
    cases failure with
    | none => exact hqueued
    | some text => exact h.respond hopen hended (fun _ _ => h.unstarted hrequests) _
  | some traces =>
    rw [hrequests] at hqueued
    cases hstopped : c.pump.hasStopped with
    | false => exact hqueued
    | true =>
      refine h.respond hopen hended (fun _ hwrites => ?_) _
      obtain ⟨e, he, hfails⟩ := h.stopped_fails hended hstopped
      rw [hwrites e he] at hfails
      cases hfails

/-- The first step for a request. -/
theorem ConnectionKept.handle (hhandler : c.handler = .handling request)
    (hstep : c.handle failure request = some c') : ConnectionKept default c' := by
  have hfits := h.handler
  rw [hhandler] at hfits
  have hended := hasEnded_eq hhandler rfl
  have hasks : AsksNextPacket request → requestAction request = .useSession .getNextPacket :=
    requestAction_of_asks
  have hcalling : (AsksNextPacket request → c.session = none) → ∀ pool call,
      HandlerCallFits c.session pool call →
        HandlerFits c.session pool c.log (.calling request call) :=
    fun hnone _ _ hcall => ⟨hfits, hcall, hnone⟩
  unfold ClientConnection.handle at hstep
  cases haction : requestAction request with
  | answer result =>
    rw [haction] at hstep hasks
    obtain rfl := Option.some.inj hstep
    exact h.respond hfits hended (fun h => by cases hasks h) result
  | sendPacket packet =>
    rw [haction] at hstep hasks
    refine h.enterCall hended ⟨rfl, fun _ hid => ?_, fun h => ?_⟩
      (hcalling fun h => by cases hasks h) hstep
    · cases hid
    · cases h
  | close =>
    rw [haction] at hstep hasks
    cases hsession : c.session with
    | none =>
      rw [hsession] at hstep
      obtain rfl := Option.some.inj hstep
      exact h.respond hfits hended (fun h => by cases hasks h) _
    | some id =>
      rw [hsession] at hstep
      exact h.enterCall hended (running_session rfl rfl rfl (h.pool.session_lt id hsession))
        (hcalling fun h => by cases hasks h) hstep
  | useSession use =>
    rw [haction] at hstep hasks
    cases hsession : c.session with
    | none =>
      rw [hsession] at hstep
      refine h.enterCall hended ⟨rfl, fun _ hid => ?_, fun _ => hsession⟩
        (hcalling fun _ => hsession) hstep
      cases hid
    | some id =>
      rw [hsession] at hstep
      cases use with
      | init =>
        obtain rfl := Option.some.inj hstep
        exact h.respond hfits hended (fun h => by cases hasks h) _
      | getAttribute key =>
        obtain ⟨x, -, rfl⟩ := Option.map_eq_some_iff.mp hstep
        exact h.respond hfits hended (fun h => by cases hasks h) _
      | setAttribute key value =>
        exact h.enterCall hended (running_session rfl rfl rfl (h.pool.session_lt id hsession))
          (hcalling fun h => by cases hasks h) hstep
      | getNextPacket =>
        obtain rfl := Option.some.inj hstep
        exact h.queueNextPacket hfits hended (asks_of_requestAction haction) hsession failure

/-- What a move of the handler's call does to the endpoint, and whether the call has returned. -/
theorem ConnectionKept.callMove {sent : Bool} (hcall : HandlerCallFits c.session c.pool call)
    (hstep : endpointThreads.step c.pool (.move call sent) = some pool) :
    ∃ op l, pool.calls[call]? = some (op, l) ∧
      ((∃ id, l = .opened id ∧ c.session = none ∧ PoolKept default (some id) pool ∧
          resultsOf id pool.log = []) ∨
        (l = .ended ∨ Running c.session pool.shared l) ∧
          PoolKept default c.session pool ∧
          takenBySession c.session pool.log = takenBySession c.session c.pool.log) := by
  obtain ⟨op, l, hl, hrunning⟩ := hcall
  rcases Threads.step_cases hstep with ⟨_, hturn, -⟩ |
    ⟨i, sent', op', m, s', l', events, hturn, hi, hnext, rfl⟩
  · cases hturn
  · cases hturn
    rw [hl] at hi
    cases hi
    obtain ⟨heffect, hpath⟩ := endpoint_move hnext
    have hlt := (List.getElem?_eq_some_iff.mp hl).1
    refine ⟨op, l', List.getElem?_set_self hlt, ?_⟩
    rcases hrunning.path h.pool.holds.1.known hpath with ⟨id, rfl, hnone⟩ | hgoes
    · have hpool := h.pool
      rw [hnone] at hpool
      obtain ⟨hkept, hfresh⟩ := hpool.opened hl hnext
      exact .inl ⟨id, rfl, hnone, hkept, hfresh⟩
    · obtain ⟨hkept, hresults⟩ := h.pool.move hl hnext
      exact .inr ⟨hgoes.imp_right fun hruns => hruns.mono heffect.created_length, hkept,
        takenBySession_eq fun id hid => hresults id (.inl hid)⟩

/-- The endpoint has moved, and nothing was taken from the session. -/
theorem ConnectionKept.withPool (hpool : PoolKept default c.session pool)
    (htaken : takenBySession c.session pool.log = takenBySession c.session c.pool.log)
    (hhandler : HandlerFits c.session pool c.log handler) (hended : c.handler.hasEnded = false) :
    ConnectionKept default { c with pool := pool, handler := handler } := by
  have hpump := h.pump
  rw [← htaken] at hpump
  exact { h with
    pool := hpool
    handler := hhandler
    pump := hpump
    stopped := fun hstopped => .inl (h.stopped_fails hended hstopped) }

/-- A move of the call that the handler waits for. -/
theorem ConnectionKept.calling (hhandler : c.handler = .calling request call)
    (hstep : endpointThreads.step c.pool (.move call failure.isNone) = some pool) :
    ConnectionKept default ({ c with pool := pool }.afterMove failure request call) := by
  have hfits := h.handler
  rw [hhandler] at hfits
  obtain ⟨hopen, hcall, hasks⟩ := hfits
  have hended := hasEnded_eq hhandler rfl
  have hqueued : c.session = none → queuedIn c.log = [] :=
    fun hnone => h.unstarted (h.sessionless hnone)
  obtain ⟨op, l, hl, ⟨id, rfl, hnone, hkept, hfresh⟩ | ⟨hgoes, hkept, htaken⟩⟩ :=
    h.callMove hcall hstep
  · have hafter : { c with pool := pool }.afterMove failure request call =
        { c with pool := pool, session := some id, handler := .handling request } := by
      unfold ClientConnection.afterMove
      rw [hl]
    have hpump := h.pump
    rw [hnone] at hpump
    rw [hafter]
    refine { h with
      pool := hkept
      handler := hopen
      pump := ?_
      sessionless := by simp
      stopped := fun hstopped => .inl (h.stopped_fails hended hstopped) }
    show PumpFits c.log (resultsOf id pool.log) _ c.pump
    rw [hfresh]
    exact hpump
  · rcases hgoes with rfl | hruns
    · have hafter : { c with pool := pool }.afterMove failure request call =
          { c with pool := pool }.respond request
            (ClientConnection.callResult failure (callEvents call pool.log)) := by
        unfold ClientConnection.afterMove
        rw [hl]
      rw [hafter]
      exact h.withPool hkept htaken
        ⟨hopen, responseTo_trace request _, fun hask _ => hqueued (hasks hask)⟩ hended
    · have hafter : { c with pool := pool }.afterMove failure request call =
          { c with pool := pool, handler := c.handler } := by
        unfold ClientConnection.afterMove
        rw [hl]
        cases l with
        | opened | ended => cases hruns.settled
        | _ => rfl
      rw [hafter]
      refine h.withPool hkept htaken ?_ hended
      rw [hhandler]
      exact ⟨hopen, ⟨op, l, hl, hruns⟩, hasks⟩

/-- A move of the call that removes the session of a client who has left. -/
theorem ConnectionKept.removing (hhandler : c.handler = .removing call)
    (hstep : endpointThreads.step c.pool (.move call true) = some pool) :
    ConnectionKept default ({ c with pool := pool }.afterRemove call) := by
  have hfits := h.handler
  rw [hhandler] at hfits
  obtain ⟨hcall, hsome⟩ := hfits
  have hended := hasEnded_eq hhandler rfl
  obtain ⟨op, l, hl, ⟨id, -, hnone, -⟩ | ⟨hgoes, hkept, htaken⟩⟩ := h.callMove hcall hstep
  · exact absurd hnone hsome
  · rcases hgoes with rfl | hruns
    · have hafter : { c with pool := pool }.afterRemove call =
          { c with pool := pool, handler := .ended } := by
        unfold ClientConnection.afterRemove
        rw [hl]
      rw [hafter]
      exact h.withPool hkept htaken trivial hended
    · have hafter : { c with pool := pool }.afterRemove call =
          { c with pool := pool, handler := c.handler } := by
        unfold ClientConnection.afterRemove
        rw [hl]
        cases l with
        | ended => cases hruns.settled
        | _ => rfl
      rw [hafter]
      refine h.withPool hkept htaken ?_ hended
      rw [hhandler]
      exact ⟨⟨op, l, hl, hruns⟩, hsome⟩

/-- The handler does something that is logged. -/
theorem ConnectionKept.logged (hqueued : queuedBy e = none) (hpumped : pumpedBy e = none)
    (hended : c.handler.hasEnded = false) (hfits : ServerFits c.log e)
    (hhandler : HandlerFits c.session c.pool (c.log ++ [e]) handler) :
    ConnectionKept default { c with handler := handler, log := c.log ++ [e] } where
  pool := h.pool
  handler := hhandler
  pump := h.pump.event hqueued hpumped
  fits := atEach_concat.mpr ⟨h.fits, hfits⟩
  unstarted := fun hnone => (queuedIn_concat hqueued).trans (h.unstarted hnone)
  sessionless := h.sessionless
  stopped := fun hstopped => by
    obtain ⟨e', he', hfails⟩ := h.stopped_fails hended hstopped
    exact .inl ⟨e', List.mem_append_left _ he', hfails⟩

/-- One move of the handler. -/
theorem ConnectionKept.handlerMove (hstep : c.handlerMove failure = some c') :
    ConnectionKept default c' := by
  have hfits := h.handler
  unfold ClientConnection.handlerMove at hstep
  split at hstep
  next => cases hstep
  next => cases hstep
  next request hhandler => exact h.handle hhandler hstep
  next request call hhandler =>
    obtain ⟨pool, hpool, rfl⟩ := Option.map_eq_some_iff.mp hstep
    exact h.calling hhandler hpool
  next request response hhandler =>
    rw [hhandler] at hfits
    obtain ⟨hopen, htrace, hasks⟩ := hfits
    cases failure with
    | none =>
      obtain rfl := Option.some.inj hstep
      exact h.logged rfl rfl (hasEnded_eq hhandler rfl) ⟨hopen.1, htrace, hasks⟩
        (hopen.concat rfl)
    | some text =>
      obtain rfl := Option.some.inj hstep
      exact h.logged rfl rfl (hasEnded_eq hhandler rfl) hopen.1 trivial
  next hhandler =>
    split at hstep
    next =>
      obtain rfl := Option.some.inj hstep
      exact { h with handler := trivial, stopped := fun _ => .inr rfl }
    next id hsession =>
      have hremoving : ∀ pool call, HandlerCallFits c.session pool call →
          HandlerFits c.session pool c.log (.removing call) := by
        intro pool call hcall
        refine ⟨hcall, ?_⟩
        rw [hsession]
        exact Option.some_ne_none id
      exact h.enterCall (hasEnded_eq hhandler rfl)
        (running_session rfl rfl rfl (h.pool.session_lt id hsession)) hremoving hstep
  next call hhandler =>
    obtain ⟨pool, hpool, rfl⟩ := Option.map_eq_some_iff.mp hstep
    exact h.removing hhandler hpool

/-- A line is read. -/
theorem ConnectionKept.readLine {line : Option Value} (hstep : c.readLine line = some c') :
    ConnectionKept default c' := by
  have hfits := h.handler
  unfold ClientConnection.readLine at hstep
  split at hstep
  next fields hhandler =>
    rw [hhandler] at hfits
    obtain rfl := Option.some.inj hstep
    exact h.logged rfl rfl (hasEnded_eq hhandler rfl) hfits (WorksOn.concat hfits rfl)
  next hhandler _ =>
    obtain rfl := Option.some.inj hstep
    exact { h with
      handler := trivial
      stopped := fun hstopped => .inl (h.stopped_fails (hasEnded_eq hhandler rfl) hstopped) }
  next => cases hstep

/-- The pump has written, or has failed to. -/
theorem ConnectionKept.pumpLogged {pump : PumpLocal} (hqueued : queuedBy e = none)
    (hopen : ∀ request, openAfter request e = request) (hanswer : answerFails e = false)
    (hfits : ServerFits c.log e) (hstopped : pump.hasStopped = true → writeFails e = true)
    (hpump : PumpFits (c.log ++ [e]) (takenBySession c.session c.pool.log)
      (c.nextPacketRequests.getD []) pump) :
    ConnectionKept default { c with pump := pump, log := c.log ++ [e] } where
  pool := h.pool
  handler := HandlerFits.event h.handler hopen hanswer hqueued
  pump := hpump
  fits := atEach_concat.mpr ⟨h.fits, hfits⟩
  unstarted := fun hnone => (queuedIn_concat hqueued).trans (h.unstarted hnone)
  sessionless := h.sessionless
  stopped := fun hstop =>
    .inl ⟨e, List.mem_append_right _ (List.mem_singleton_self e), hstopped hstop⟩

/-- The pump takes from the session for the trace it works on. -/
theorem ConnectionKept.take (hpump : c.pump = .taking trace) (hsession : c.session = some id)
    (hstep : c.take id trace = some c') : ConnectionKept default c' := by
  have hpool := h.pool
  have hfits := h.pump
  rw [hsession] at hpool
  rw [hpump, hsession] at hfits
  unfold ClientConnection.take at hstep
  split at hstep
  next => cases hstep
  next pool hrun =>
    obtain ⟨hkept, hlength, hcalls, e, hlog, he⟩ := hpool.take hrun
    rw [hlog, List.getLast?_concat] at hstep
    obtain rfl := Option.some.inj hstep
    refine { h with
      pool := ?_, handler := HandlerFits.other h.handler ?_, pump := ?_, stopped := ?_ }
    · rw [hsession]
      exact hkept
    · rintro call - ⟨op, l, hl, hruns⟩
      refine ⟨op, l, ?_, hruns.mono hlength⟩
      rw [hcalls call (List.getElem?_eq_some_iff.mp hl).1]
      exact hl
    · have htaken : takenBySession c.session pool.log =
          resultsOf id c.pool.log ++ [ClientConnection.takeResult e] := by
        rw [hsession, hlog]
        show resultsOf id _ = _
        simp [resultsOf, he]
      show Pairs c.log (takenBySession c.session pool.log) _ _
      rw [htaken]
      exact Pairs.took hfits _
    · intro hstopped
      cases hstopped

/-- One move of the pump. -/
theorem ConnectionKept.pumpMove {failed : Bool} (hstep : c.pumpMove failed = some c') :
    ConnectionKept default c' := by
  have hfits := h.pump
  unfold ClientConnection.pumpMove at hstep
  split at hstep
  next hpump =>
    rw [hpump] at hfits
    split at hstep
    next trace traces hrequests =>
      rw [hrequests] at hfits
      obtain rfl := Option.some.inj hstep
      refine { h with
        pump := hfits
        unstarted := by simp
        sessionless := fun hnone => ?_
        stopped := fun hstopped => by cases hstopped }
      rw [h.sessionless hnone] at hrequests
      cases hrequests
    next hrequests =>
      split at hstep
      next hended =>
        obtain rfl := Option.some.inj hstep
        exact { h with
          pump := ⟨_, _, hfits, List.prefix_rfl⟩
          stopped := fun _ => .inr hended }
      next => cases hstep
    next => cases hstep
  next trace hpump =>
    obtain ⟨id, hsession, htake⟩ := Option.bind_eq_some_iff.mp hstep
    exact h.take hpump hsession htake
  next response hpump =>
    rw [hpump] at hfits
    obtain ⟨done, hlength, htraces, hwritten⟩ := hfits
    cases failed with
    | true =>
      obtain rfl := Option.some.inj hstep
      refine h.pumpLogged rfl (fun _ => rfl) rfl trivial (fun _ => rfl)
        ⟨_, _, ⟨done, hlength, (congrArg (List.map traceOf) (queuedIn_concat rfl)).trans htraces,
          rfl⟩, ?_⟩
      rw [← hwritten, pumpedIn_concat rfl]
      exact List.prefix_append _ _
    | false =>
      obtain rfl := Option.some.inj hstep
      refine h.pumpLogged rfl (fun _ => rfl) rfl trivial (fun h => by cases h)
        ⟨done, hlength, (congrArg (List.map traceOf) (queuedIn_concat rfl)).trans htraces, ?_⟩
      rw [← hwritten]
      simp [pumpedIn, pumpedBy]
  next => cases hstep

/-- **One step.** -/
theorem ConnectionKept.step {turn : ServerTurn} (hstep : serverStep c turn = some c') :
    ConnectionKept default c' := by
  cases turn with
  | endpoint turn =>
    rw [serverStep] at hstep
    split at hstep
    next hforeign =>
      obtain ⟨pool, hpool, rfl⟩ := Option.map_eq_some_iff.mp hstep
      exact h.endpoint hforeign hpool
    next => cases hstep
  | line line => exact h.readLine hstep
  | handler failure => exact h.handlerMove hstep
  | pump failed => exact h.pumpMove hstep

/-- The responses of the pump. -/
theorem ConnectionKept.answers : AnswersInOrder c := by
  intro k response hk
  obtain ⟨ahead, written, ⟨done, -, htraces, hwritten⟩, rest, hrest⟩ := PumpFits.pairs h.pump
  have hlt := (List.getElem?_eq_some_iff.mp hk).1
  have hzip : (List.zipWith nextPacketResponse done (takenBySession c.session c.pool.log))[k]? =
      some response := by
    rw [← hwritten, ← hrest, List.getElem?_append_left hlt, hk]
  obtain ⟨trace, result, htrace, hresult, rfl⟩ := List.getElem?_zipWith_eq_some.mp hzip
  have hdone := (List.getElem?_eq_some_iff.mp htrace).1
  have hmap : ((queuedIn c.log).map traceOf)[k]? = some trace := by
    rw [htraces, List.getElem?_append_left hdone, htrace]
  rw [List.getElem?_map] at hmap
  obtain ⟨request, hrequest, rfl⟩ := Option.map_eq_some_iff.mp hmap
  cases hsession : c.session with
  | none =>
    rw [hsession] at hresult
    cases hresult
  | some id =>
    rw [hsession] at hresult
    refine ⟨request, id, hrequest, rfl, nextPacketResponse_trace _ _, ?_⟩
    rcases h.pool.result hresult with ⟨packet, hput, rfl⟩ | ⟨hclosed, hnone, rfl⟩
    · exact .inl ⟨packet, hput, rfl⟩
    · exact .inr ⟨hclosed, hnone, rfl⟩

end Steps

end Uartbus.Analysis
