import Uartbus.Lib.StopFlag
import Uartbus.Model.Streamer

/-!
# Closing the streamer

The streaming thread looks at `run` at the head of its loop and opens a connection, if there is
none, one move later.  A `close` in between takes the old connection, and the thread then opens one
that nobody closes (`thread_left_waiting`).  When `close` takes the connection at another moment,
the thread opens nothing any more, and the connection it may be waiting on has been closed.
-/

set_option autoImplicit false

namespace Uartbus.Analysis

open Lib Model

/-- The thread has found `run` to be true, and the connection is next. -/
def AboutToConnect : StreamerLocal → Prop
  | .loopConnecting _ => True
  | _ => False

instance decidableAboutToConnect : ∀ l, Decidable (AboutToConnect l)
  | .loopConnecting _ => isTrue trivial
  | .sendConnecting _ | .sending .. | .sendEnded _ | .cleaning | .cleanEnded | .startChecking
  | .startConnecting | .startRunning | .startSpawning | .startEnded _ | .threadWaiting
  | .loopChecking _ | .loopReceiving .. | .loopFailed _ | .loopCleaning _ | .loopLeft _
  | .threadEnded | .joinTaking | .joining _ | .joinEnded | .closing | .closingConnection
  | .closeEnded => isFalse id

/-- A `close` that has stored `run`. -/
def StreamerStopped (l : StreamerLocal) : Prop := l = .closingConnection ∨ l = .closeEnded

instance decidableStreamerStopped (l : StreamerLocal) : Decidable (StreamerStopped l) :=
  inferInstanceAs (Decidable (_ ∨ _))

/-- The flag `run`, which `close` clears. -/
def streamerRun : StopFlag StreamerShared StreamerLocal where
  flag s := s.run
  sets l := l = .startRunning
  passed := AboutToConnect
  stopped := StreamerStopped
  ending l := l = .closingConnection
  ended l := l = .closeEnded

/-- `close` takes the connection while the thread is not between its loop check and `get_api`, and
`start_streaming` does not set `run` again after a `close`. -/
def StreamerClosesAlone (p : StreamerPool) (l : StreamerLocal) : Prop :=
  (l = .closingConnection → ∀ c ∈ p.calls, ¬ AboutToConnect c.2) ∧
    (l = .startRunning → ∀ c ∈ p.calls, ¬ StreamerStopped c.2)

instance decidableStreamerClosesAlone (p : StreamerPool) (l : StreamerLocal) :
    Decidable (StreamerClosesAlone p l) :=
  inferInstanceAs (Decidable (_ ∧ _))

/-! ## The connections -/

/-- The working connection has been opened, and every other one that was has been closed. -/
structure ConnectionsKept (s : StreamerShared) : Prop where
  working : ∀ c, s.working = some c → c < s.opened
  closed : ∀ c < s.opened, s.working = some c ∨ c ∈ s.closed

/-- What a move does with the connections. -/
structure ConnectionMove (s s' : StreamerShared) : Prop where
  kept : ConnectionsKept s → ConnectionsKept s'
  opened : s.opened ≤ s'.opened
  closed : s.closed ⊆ s'.closed

theorem ConnectionMove.same {s s' : StreamerShared} (hworking : s'.working = s.working)
    (hopened : s'.opened = s.opened) (hclosed : s'.closed = s.closed) : ConnectionMove s s' where
  kept h := by
    refine ⟨fun c hc => ?_, fun c hc => ?_⟩
    · rw [hopened]
      exact h.working c (hworking ▸ hc)
    · rw [hworking, hclosed]
      exact h.closed c (hopened ▸ hc)
  opened := Nat.le_of_eq hopened.symm
  closed := by rw [hclosed]; exact List.Subset.refl _

/-- What `get_api` leaves: the connections kept, and the one it returns is open or was. -/
theorem getApi_move {choice : StreamerChoice} {s s' : StreamerShared} {r : Except String ℕ}
    {events : List StreamerEvent} (h : getApi choice s = (r, s', events)) :
    ConnectionMove s s' ∧ s'.run = s.run ∧
      ∀ c, r = .ok c → ConnectionsKept s → c < s'.opened := by
  unfold getApi at h
  split at h
  next connection _ hworking =>
    obtain ⟨rfl, rfl, -⟩ := h
    refine ⟨.same rfl rfl rfl, rfl, fun c hc hkept => ?_⟩
    cases hc
    exact hkept.working _ hworking
  next =>
    obtain ⟨rfl, rfl, -⟩ := h
    exact ⟨.same rfl rfl rfl, rfl, by simp⟩
  next hworking _ =>
    obtain ⟨rfl, rfl, -⟩ := h
    refine ⟨⟨fun hkept => ⟨fun c hc => ?_, fun c hc => ?_⟩, Nat.le_succ _,
      List.Subset.refl _⟩, rfl, fun c hc _ => ?_⟩
    · cases hc
      exact Nat.lt_succ_self _
    · rcases Nat.lt_succ_iff_lt_or_eq.mp hc with hc | rfl
      · refine .inr ((hkept.closed c hc).resolve_left ?_)
        rw [hworking]
        exact Option.some_ne_none c |>.symm
      · exact .inl rfl
    · cases hc
      exact Nat.lt_succ_self _

/-- `cleanup_connection` closes what it takes. -/
theorem cleanupConnection_move (s : StreamerShared) :
    ConnectionMove s (cleanupConnection s).1 ∧ (cleanupConnection s).1.run = s.run ∧
      (cleanupConnection s).1.working = none ∧ (cleanupConnection s).1.opened = s.opened := by
  unfold cleanupConnection
  split
  next connection hworking =>
    refine ⟨⟨fun hkept => ⟨by simp, fun c hc => .inr ?_⟩, Nat.le_refl _,
      List.subset_cons_self _ _⟩, rfl, rfl, rfl⟩
    rcases hkept.closed c hc with hsome | hclosed
    · rw [hworking] at hsome
      cases hsome
      exact List.mem_cons_self
    · exact List.mem_cons_of_mem _ hclosed
  next hworking => exact ⟨.same rfl rfl rfl, rfl, hworking, rfl⟩

/-! ## What a move can do -/

/-- What matters here of a move. -/
structure StreamerMove (s : StreamerShared) (l : StreamerLocal) (s' : StreamerShared)
    (l' : StreamerLocal) : Prop where
  flag : streamerRun.Move s l s' l'
  connections : ConnectionMove s s'
  /-- The thread waits on a connection that `get_api` has just returned. -/
  receives : ∀ thread c, l' = .loopReceiving thread c →
    AboutToConnect l ∧ (ConnectionsKept s → c < s'.opened)
  ends : l' = .closeEnded → s'.working = none

variable {choice : StreamerChoice} {s s' : StreamerShared} {l l' : StreamerLocal}
  {events : List StreamerEvent} {p : StreamerPool}

/-- A place that is neither behind the loop check, nor in `close`, nor at the connection. -/
def Ordinary : StreamerLocal → Prop
  | .loopConnecting _ | .closingConnection | .closeEnded | .loopReceiving .. => False
  | _ => True

theorem Ordinary.flag (h : Ordinary l') (hrun : s'.run = true → s.run = true ∨ l = .startRunning) :
    streamerRun.Move s l s' l' where
  flag := hrun
  passed hl' := by cases l' <;> first | exact hl'.elim | exact h.elim
  stopped hl' := by rcases hl' with rfl | rfl <;> exact h.elim
  ended hl' := by
    obtain rfl : l' = .closeEnded := hl'
    exact h.elim

/-- A move to an ordinary place. -/
theorem StreamerMove.ordinary (h : Ordinary l')
    (hrun : s'.run = true → s.run = true ∨ l = .startRunning) (hmove : ConnectionMove s s') :
    StreamerMove s l s' l' where
  flag := h.flag hrun
  connections := hmove
  receives thread c hl' := by subst hl'; exact h.elim
  ends hl' := by subst hl'; exact h.elim

/-- A move to an ordinary place that leaves the connections and `run` alone. -/
theorem StreamerMove.plain (h : Ordinary l') (hrun : s'.run = s.run)
    (hworking : s'.working = s.working) (hopened : s'.opened = s.opened)
    (hclosed : s'.closed = s.closed) : StreamerMove s l s' l' :=
  .ordinary h (fun ht => .inl (hrun ▸ ht)) (.same hworking hopened hclosed)

/-- What a move of any call can do, place by place. -/
theorem streamerNext_move (hnext : streamerNext choice s l = some (s', l', events)) :
    StreamerMove s l s' l' := by
  obtain ⟨hclean, hcleanRun, hcleanWorking, -⟩ := cleanupConnection_move s
  cases l with
  | sendConnecting data =>
    rw [streamerNext] at hnext
    split at hnext
    all_goals
      rename_i hapi
      obtain ⟨hmove, hrun, -⟩ := getApi_move hapi
      obtain ⟨rfl, rfl, -⟩ := hnext
      exact .ordinary trivial (fun ht => .inl (hrun ▸ ht)) hmove
  | sending connection data =>
    obtain ⟨rfl, rfl, -⟩ := hnext
    exact .plain trivial rfl rfl rfl rfl
  | cleaning | loopCleaning thread =>
    obtain ⟨rfl, rfl, -⟩ := hnext
    exact .ordinary trivial (fun ht => .inl (hcleanRun ▸ ht)) hclean
  | startChecking | joinTaking =>
    rw [streamerNext] at hnext
    split at hnext
    · cases hnext
    · split at hnext
      all_goals
        obtain ⟨rfl, rfl, -⟩ := hnext
        exact .plain trivial rfl rfl rfl rfl
  | startConnecting =>
    rw [streamerNext] at hnext
    split at hnext
    next hapi =>
      obtain ⟨hmove, hrun, -⟩ := getApi_move hapi
      obtain ⟨rfl, rfl, -⟩ := hnext
      exact .ordinary trivial (fun ht => .inl (hrun ▸ ht)) hmove
    next hapi =>
      obtain ⟨hmove, hrun, -⟩ := getApi_move hapi
      obtain ⟨rfl, rfl, -⟩ := hnext
      exact .ordinary trivial (fun ht => .inl (hrun ▸ ht))
        ⟨fun hkept => ⟨(hmove.kept hkept).working, (hmove.kept hkept).closed⟩,
          hmove.opened, hmove.closed⟩
  | startRunning =>
    obtain ⟨rfl, rfl, -⟩ := hnext
    exact .ordinary trivial (fun _ => .inr rfl) (.same rfl rfl rfl)
  | startSpawning | loopFailed thread =>
    rw [streamerNext] at hnext
    split at hnext
    all_goals
      obtain ⟨rfl, rfl, -⟩ := hnext
      exact .plain trivial rfl rfl rfl rfl
  | threadWaiting =>
    rw [streamerNext] at hnext
    split at hnext
    · cases hnext
    · obtain ⟨rfl, rfl, -⟩ := hnext
      exact .plain trivial rfl rfl rfl rfl
  | loopChecking thread =>
    rw [streamerNext] at hnext
    split at hnext
    next hrun =>
      obtain ⟨rfl, rfl, -⟩ := hnext
      exact ⟨⟨.inl, fun _ => .inl hrun, fun h => (by rcases h with h | h <;> cases h),
        fun h => (by cases h)⟩, .same rfl rfl rfl, fun _ _ h => (by cases h),
        by simp⟩
    next =>
      obtain ⟨rfl, rfl, -⟩ := hnext
      exact .plain trivial rfl rfl rfl rfl
  | loopConnecting thread =>
    rw [streamerNext] at hnext
    split at hnext
    next connection _ _ hapi =>
      obtain ⟨hmove, hrun, hopened⟩ := getApi_move hapi
      obtain ⟨rfl, rfl, -⟩ := hnext
      refine ⟨⟨fun ht => .inl (hrun.symm.trans ht), fun h => h.elim,
        fun h => (by rcases h with h | h <;> cases h), fun h => (by cases h)⟩, hmove,
        fun _ c h => ?_, by simp⟩
      cases h
      exact ⟨trivial, hopened _ rfl⟩
    next hapi =>
      obtain ⟨hmove, hrun, -⟩ := getApi_move hapi
      obtain ⟨rfl, rfl, -⟩ := hnext
      exact .ordinary trivial (fun ht => .inl (hrun ▸ ht)) hmove
  | loopReceiving thread connection =>
    obtain ⟨result, -, hresult⟩ := Option.map_eq_some_iff.mp hnext
    cases result with
    | ok _ | error _ =>
      obtain ⟨rfl, rfl, -⟩ := hresult
      exact .plain trivial rfl rfl rfl rfl
  | loopLeft thread =>
    obtain ⟨rfl, rfl, -⟩ := hnext
    exact .ordinary trivial (by simp) (.same rfl rfl rfl)
  | joining thread =>
    rw [streamerNext] at hnext
    split at hnext
    · obtain ⟨rfl, rfl, -⟩ := hnext
      exact .plain trivial rfl rfl rfl rfl
    · cases hnext
  | closing =>
    obtain ⟨rfl, rfl, -⟩ := hnext
    exact ⟨⟨fun h => (by cases h), fun h => h.elim, fun _ => Or.inl rfl,
      fun h => (by cases h)⟩, .same rfl rfl rfl, fun _ _ h => (by cases h),
      by simp⟩
  | closingConnection =>
    obtain ⟨rfl, rfl, -⟩ := hnext
    exact ⟨⟨fun ht => .inl (hcleanRun.symm.trans ht), fun h => h.elim,
      fun _ => .inr (.inl rfl), fun _ => rfl⟩, hclean, by simp,
      fun _ => hcleanWorking⟩
  | sendEnded | cleanEnded | startEnded | threadEnded | joinEnded | closeEnded => cases hnext

theorem streamerRun_fits : streamerRun.Fits streamerThreads where
  enter_stopped op := by cases op <;> rintro (h | h) <;> cases h
  enter_passed op := by cases op <;> exact id
  ended_stopped _ := .inr
  ended_passed l hl := by
    obtain rfl : l = .closeEnded := hl
    exact id
  next _ _ _ _ _ _ hnext := (streamerNext_move hnext).flag

/-! ## Every interleaving -/

/-- The connections are accounted for; a thread waits on one that was opened, and behind a `close`
that has returned on one that was closed. -/
structure WaitsKept (p : StreamerPool) : Prop where
  connections : ConnectionsKept p.shared
  opened : ∀ c ∈ p.calls, ∀ thread n, c.2 = .loopReceiving thread n → n < p.shared.opened
  closed : ∀ c ∈ p.calls, c.2 = .closeEnded →
    ∀ c' ∈ p.calls, ∀ thread n, c'.2 = .loopReceiving thread n → n ∈ p.shared.closed

theorem WaitsKept.enter (p : StreamerPool) (op : StreamerOp) (h : WaitsKept p) :
    WaitsKept { p with calls := p.calls ++ [(op, streamerThreads.enter op)] } := by
  have hfresh : ∀ thread n, streamerThreads.enter op ≠ .loopReceiving thread n := by
    intro thread n hl
    cases op <;> cases hl
  refine ⟨h.connections, forall_mem_concat.mpr ⟨h.opened, fun thread n hl => ?_⟩,
    forall_mem_concat.mpr ⟨fun c hc hended => ?_, fun hended => ?_⟩⟩
  · exact absurd hl (hfresh thread n)
  · exact forall_mem_concat.mpr
      ⟨h.closed c hc hended, fun thread n hl => absurd hl (hfresh thread n)⟩
  · exact absurd (.inr hended) (streamerRun_fits.enter_stopped op)

/-- A move of one call keeps the connections accounted for. -/
theorem WaitsKept.move (h : WaitsKept p) (hcleared : streamerRun.Cleared p) {i : ℕ}
    {op : StreamerOp} {log : List (ℕ × StreamerEvent)} (hcall : p.calls[i]? = some (op, l))
    (hmove : StreamerMove p.shared l s' l') : WaitsKept ⟨s', p.calls.set i (op, l'), log⟩ := by
  have hmem : (op, l) ∈ p.calls := List.mem_of_getElem? hcall
  have hkept := hmove.connections.kept h.connections
  have hopened : ∀ c ∈ p.calls, ∀ thread n, c.2 = .loopReceiving thread n → n < s'.opened :=
    fun c hc thread n hl => Nat.lt_of_lt_of_le (h.opened c hc thread n hl) hmove.connections.opened
  refine ⟨hkept, fun c hc thread n hl => ?_, fun c hc hended c' hc' thread n hl => ?_⟩
  · rcases List.mem_or_eq_of_mem_set hc with hc | rfl
    · exact hopened c hc thread n hl
    · exact (hmove.receives thread n hl).2 h.connections
  · rcases List.mem_or_eq_of_mem_set hc with hc | rfl
    · rcases List.mem_or_eq_of_mem_set hc' with hc' | rfl
      · exact hmove.connections.closed (h.closed c hc hended c' hc' thread n hl)
      · exact absurd (hmove.receives thread n hl).1 (hcleared.ended c hc hended (op, l) hmem)
    · -- the `close` that has just taken the working connection
      rcases List.mem_or_eq_of_mem_set hc' with hc' | rfl
      · refine (hkept.closed n (hopened c' hc' thread n hl)).resolve_left ?_
        rw [hmove.ends hended]
        exact Option.some_ne_none n |>.symm
      · have hended : l' = .closeEnded := hended
        rw [hended] at hl
        cases hl

/-! ## The streaming thread -/

/-- The places of the streaming thread. -/
def InThread : StreamerLocal → Prop
  | .threadWaiting | .loopChecking _ | .loopConnecting _ | .loopReceiving .. | .loopFailed _
  | .loopCleaning _ | .loopLeft _ | .threadEnded => True
  | _ => False

/-- No connection is opened, and none becomes the working one. -/
def InstallsNothing (s s' : StreamerShared) : Prop :=
  s'.opened = s.opened ∧ ∀ c, s'.working = some c → s.working = some c

/-- The thread stays in its places, and opens a connection only behind its loop check. -/
theorem inThread_next (hl : InThread l) (hnext : streamerNext choice s l = some (s', l', events)) :
    InThread l' ∧ (¬ AboutToConnect l → InstallsNothing s s') := by
  obtain ⟨-, -, hworking, hopened⟩ := cleanupConnection_move s
  have hsame : InstallsNothing s s := ⟨rfl, fun _ => id⟩
  cases l with
  | threadWaiting =>
    rw [streamerNext] at hnext
    split at hnext
    · cases hnext
    · obtain ⟨rfl, rfl, -⟩ := hnext
      exact ⟨trivial, fun _ => ⟨rfl, fun _ => id⟩⟩
  | loopChecking thread | loopFailed thread =>
    rw [streamerNext] at hnext
    split at hnext
    all_goals
      obtain ⟨rfl, rfl, -⟩ := hnext
      exact ⟨trivial, fun _ => hsame⟩
  | loopConnecting thread =>
    rw [streamerNext] at hnext
    split at hnext
    all_goals
      obtain ⟨-, rfl, -⟩ := hnext
      exact ⟨trivial, fun hl => absurd trivial hl⟩
  | loopReceiving thread connection =>
    obtain ⟨result, -, hresult⟩ := Option.map_eq_some_iff.mp hnext
    cases result with
    | ok _ | error _ =>
      obtain ⟨rfl, rfl, -⟩ := hresult
      exact ⟨trivial, fun _ => hsame⟩
  | loopCleaning thread =>
    obtain ⟨rfl, rfl, -⟩ := hnext
    refine ⟨trivial, fun _ => ⟨hopened, fun c hc => ?_⟩⟩
    rw [hworking] at hc
    cases hc
  | loopLeft thread =>
    obtain ⟨rfl, rfl, -⟩ := hnext
    exact ⟨trivial, fun _ => ⟨rfl, fun _ => id⟩⟩
  | threadEnded => cases hnext
  | sendConnecting | sending | sendEnded | cleaning | cleanEnded | startChecking | startConnecting
  | startRunning | startSpawning | startEnded | joinTaking | joining | joinEnded | closing
  | closingConnection | closeEnded => exact hl.elim

/-- In every run the streaming threads are in their places. -/
theorem streamThread_inThread {turns : List (Turn StreamerOp StreamerChoice)}
    (hrun : run streamerThreads.step (Pool.start .new) turns = some p) (j : ℕ)
    (hcall : p.calls[j]? = some (.streamThread, l)) : InThread l := by
  have hkept : streamerThreads.Kept (fun _ _ _ => True) (fun _ _ => True)
      (fun _ op l _ => op = .streamThread → InThread l) := by
    refine ⟨fun _ _ op _ hop => ?_, fun _ _ _ op l choice s' l' events _ hA _ hnext => ?_,
      fun _ _ _ _ _ _ _ _ _ _ _ _ _ _ hA _ _ => hA⟩
    · rw [hop]
      trivial
    · exact ⟨trivial, fun hop => (inThread_next (hA hop) hnext).1⟩
  exact (hkept.run_all trivial hrun).2.1 j .streamThread l hcall rfl

/-- **A closed streamer opens no connection**, when `close` does not take the connection between
the thread's loop check and its `get_api`, and streaming is not started again after it: once a
`close` has returned, no move of a streaming thread installs a connection, and the connection it
may be waiting on has been closed.
SOURCE: rpc/streamer.rs:46-147 -/
theorem closed_streamer_opens_nothing (turns : List (Turn StreamerOp StreamerChoice))
    (p : StreamerPool)
    (hrun : run streamerThreads.step (Pool.start .new) turns = some p)
    (halone : Along streamerThreads.step (Threads.MovesIn StreamerClosesAlone)
      (Pool.start .new) turns)
    (i : ℕ) (hclosed : p.calls[i]? = some (.close, .closeEnded))
    (j : ℕ) (l : StreamerLocal) (hthread : p.calls[j]? = some (.streamThread, l)) :
    (∀ choice p', streamerThreads.step p (.move j choice) = some p' →
        InstallsNothing p.shared p'.shared) ∧
      ∀ thread connection, l = .loopReceiving thread connection →
        connection ∈ p.shared.closed := by
  have hstart : WaitsKept (Pool.start .new) :=
    ⟨⟨fun _ hc => (by cases hc), fun _ hc => (by cases hc)⟩, fun _ hc => (by cases hc),
      fun _ hc => (by cases hc)⟩
  obtain ⟨hcleared, hwaits⟩ := streamerRun_fits.run (P := StreamerClosesAlone)
    (fun _ _ h => ⟨h.1, h.2⟩) WaitsKept.enter
    (fun _ _ _ _ _ _ _ _ hcleared h hcall hnext =>
      h.move hcleared hcall (streamerNext_move hnext)) hstart halone hrun
  have hi := List.mem_of_getElem? hclosed
  have hj := List.mem_of_getElem? hthread
  refine ⟨fun choice p' hstep => ?_, hwaits.closed _ hi rfl _ hj⟩
  rcases Threads.step_cases hstep with ⟨op, hturn, -⟩ |
    ⟨j', choice', op, m, s', m', events, hturn, hcall, hnext, rfl⟩
  · cases hturn
  · cases hturn
    rw [hthread] at hcall
    cases hcall
    exact (inThread_next (streamThread_inThread hrun j hthread) hnext).2
      (hcleared.ended _ hi rfl _ hj)

/-- Connections open, the thread starts, and nothing has been received. -/
def quietChoice : StreamerChoice where
  factory := none
  receive := none
  send := .ok ()
  spawn := none

/-- Streaming is started, and the thread has begun and is at the head of its loop. -/
def streamingTurns : List (Turn StreamerOp StreamerChoice) :=
  [.enter .startStreaming, .move 0 quietChoice, .move 0 quietChoice, .move 0 quietChoice,
    .move 0 quietChoice, .enter .streamThread, .move 1 quietChoice]

/-- The streamer is closed while the thread waits for a packet. -/
def closedWaitingTurns : List (Turn StreamerOp StreamerChoice) :=
  streamingTurns ++ [.move 1 quietChoice, .move 1 quietChoice,
    .enter .close, .move 2 quietChoice, .move 2 quietChoice]

/-- The thread waits for a packet when the streamer is closed; its next move installs no session. -/
theorem closed_streamer_opens_nothing_waiting :
    ∃ p, run streamerThreads.step (Pool.start .new) closedWaitingTurns = some p ∧
      p.calls[1]? = some (.streamThread, .loopReceiving 0 0) ∧ 0 ∈ p.shared.closed ∧
      ∀ choice p', streamerThreads.step p (.move 1 choice) = some p' →
        InstallsNothing p.shared p'.shared := by
  refine exists_eq_some (Q := fun p => p.calls[1]? = some (.streamThread, .loopReceiving 0 0) ∧
    p.calls[2]? = some (.close, .closeEnded)) (by decide +kernel) ?_
  rintro p hrun ⟨hthread, hclosed⟩
  obtain ⟨hmoves, hwaits⟩ := closed_streamer_opens_nothing _ p hrun (by decide +kernel) 2 hclosed
    1 _ hthread
  exact ⟨hthread, hwaits 0 0 rfl, hmoves⟩

/-- `close` runs completely between the thread's loop check and its `get_api`. -/
def lateConnectTurns : List (Turn StreamerOp StreamerChoice) :=
  streamingTurns ++ [.move 1 quietChoice,
    .enter .close, .move 2 quietChoice, .move 2 quietChoice, .move 1 quietChoice]

/-- The thread opens a second connection behind the `close`, and waits on it: it is the working
one, it is open, and every other call has ended. -/
theorem thread_left_waiting :
    ∃ p, run streamerThreads.step (Pool.start .new) lateConnectTurns = some p ∧
      p.calls = [(.startStreaming, .startEnded (.ok ())), (.streamThread, .loopReceiving 0 1),
        (.close, .closeEnded)] ∧
      p.log = [(0, .installed 0), (2, .closedConnection 0), (1, .installed 1)] ∧
      p.shared.working = some 1 ∧ p.shared.closed = [0] ∧
      streamerThreads.next quietChoice p.shared (.loopReceiving 0 1) = none :=
  ⟨_, rfl, rfl, rfl, rfl, rfl, rfl⟩

end Uartbus.Analysis
