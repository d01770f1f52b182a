import Uartbus.Analysis.FanOut
import Uartbus.Interface.ServerHistory

/-!
# The endpoint with one client

The pool of the endpoint's calls as a client connection uses it.  Nobody else takes from the session
of the client (`PoolKept`), so what has been taken from it is what the client has taken, and by the
history of the endpoint these are the packets that were put to it, in their order, and then the end
of receive (`resultsOf_eq`).
-/

set_option autoImplicit false

namespace Uartbus.Analysis

open Lib Model Interface

variable {s s' : EndpointShared} {events : List EndpointEvent} {l l' : EndpointLocal}
  {op : EndpointOp} {id : ℕ}

/-! ## What was taken -/

theorem resultsOf_append (id : ℕ) (log more : List (ℕ × EndpointEvent)) :
    resultsOf id (log ++ more) = resultsOf id log ++ resultsOf id more :=
  List.filterMap_append

/-- What `take` returns: packets, and from some moment on the error. -/
theorem resultsOf_eq {default : Attribute → Bool} {log : List (ℕ × EndpointEvent)} (id : ℕ)
    (h : AtEach (FanOutFits default) log) :
    ∃ ends, resultsOf id log =
        (takenFrom id log).map .ok ++ List.replicate ends (.error endOfReceive) ∧
      (0 < ends → closedIn id log = true ∧ takenFrom id log = putsTo id log) := by
  induction log using List.reverseRecOn with
  | nil => exact ⟨0, rfl, fun h => absurd h (Nat.lt_irrefl 0)⟩
  | append_singleton log e ih =>
    obtain ⟨hlog, he⟩ := atEach_concat.mp h
    obtain ⟨ends, hresults, hends⟩ := ih hlog
    obtain ⟨i, event⟩ := e
    rw [resultsOf_append, hresults, takenFrom_concat, closedIn_concat, putsTo_concat]
    -- an event that is not of `take`
    have hother : resultBy id event = none → takenBy id event = none → ∃ ends',
        (takenFrom id log).map .ok ++ List.replicate ends (.error endOfReceive) ++
            resultsOf id [(i, event)] =
          (takenFrom id log ++ (takenBy id event).toList).map .ok ++
            List.replicate ends' (.error endOfReceive) ∧
        (0 < ends' → (closedIn id log || closesSession id event) = true ∧
          takenFrom id log ++ (takenBy id event).toList =
            if closedIn id log then putsTo id log
            else putsTo id log ++ (putBy id event).toList) := by
      intro hresult htaken
      refine ⟨ends, ?_, fun hpos => ?_⟩
      · simp [resultsOf, hresult, htaken]
      · obtain ⟨hclosed, htook⟩ := hends hpos
        simp [hclosed, htaken, htook]
    cases event with
    | took id' packet =>
      by_cases hid : id' = id
      · subst hid
        -- there was something to take, so the error has not been returned yet
        have hzero : ends = 0 := by
          by_contra hne
          have hlength := (show _ <+: _ from he).length_le
          rw [(hends (Nat.pos_of_ne_zero hne)).2, List.length_append] at hlength
          exact absurd hlength (Nat.not_succ_le_self _)
        simp [hzero, resultsOf, resultBy, takenBy]
      · exact hother (if_neg hid) (if_neg hid)
    | endOfReceive id' =>
      by_cases hid : id' = id
      · subst hid
        obtain ⟨hclosed, htook⟩ := (show _ ∧ _ from he)
        refine ⟨ends + 1, ?_, fun _ => ?_⟩
        · simp [resultsOf, resultBy, takenBy, List.replicate_succ']
        · simp [hclosed, htook, takenBy]
      · exact hother (if_neg hid) rfl
    | _ => exact hother rfl rfl

/-- Only a call that waits at the session takes from it. -/
theorem resultsOf_effect (h : EndpointEffect s l s' events) (i : ℕ) (hl : l ≠ .taking id) :
    resultsOf id (ownedBy i events) = [] := by
  have hne : ∀ {id'}, l = .taking id' → id' ≠ id := by
    rintro id' rfl rfl
    exact hl rfl
  cases h with
  | took htaking | endOfReceive htaking => simp [resultsOf, ownedBy, resultBy, hne htaking]
  | plain he => cases he <;> rfl
  | silent | copied | loaded | put | attributesSet | created | removed | marked | emptied
  | sessionClosed => rfl

theorem takeMove_result {x : SessionState} (h : takeMove s id x = some (s', l', events)) :
    ∃ e, events = [e] ∧ resultBy id e = some (ClientConnection.takeResult e) := by
  unfold takeMove SessionState.take at h
  cases hpackets : x.packets with
  | cons packet packets =>
    simp only [hpackets, Option.some.injEq, Prod.mk.injEq] at h
    exact ⟨_, h.2.2.symm, if_pos rfl⟩
  | nil =>
    cases hclosed : x.closed with
    | true =>
      simp only [hpackets, hclosed, if_true, Option.some.injEq, Prod.mk.injEq] at h
      exact ⟨_, h.2.2.symm, if_pos rfl⟩
    | false => simp [hpackets, hclosed] at h

/-- A move leaves nobody waiting who did not wait before. -/
theorem taking_of_path (h : EndpointPath s l l') {calls : List (EndpointOp × EndpointLocal)}
    {j k : ℕ} {op' : EndpointOp} (hk : (calls.set j (op, l'))[k]? = some (op', .taking id)) :
    j ≠ k ∧ calls[k]? = some (op', .taking id) := by
  by_cases hjk : j = k
  · subst hjk
    have hlt := (List.getElem?_eq_some_iff.mp hk).1
    rw [List.length_set] at hlt
    rw [List.getElem?_set_self hlt] at hk
    obtain ⟨rfl, rfl⟩ := Prod.mk.inj (Option.some.inj hk)
    cases h
  · rw [List.getElem?_set_ne hjk] at hk
    exact ⟨hjk, hk⟩

/-! ## The pool -/

/-- The pool of the calls, when the client has this session. -/
abbrev EndpointPool := Pool EndpointOp EndpointShared EndpointLocal EndpointEvent

/-- The endpoint is what its history says; nobody waits at the session of the client or at one that
has not been created. -/
structure PoolKept (default : Attribute → Bool) (session : Option ℕ) (pool : EndpointPool) :
    Prop where
  holds : Threads.Holds (EndpointKept default) GivesFits pool
  session_lt : ∀ id, session = some id → id < pool.shared.created.length
  taking : ∀ (j : ℕ) (op : EndpointOp) (id : ℕ), pool.calls[j]? = some (op, .taking id) →
    id < pool.shared.created.length ∧ session ≠ some id
  fresh : ∀ id, pool.shared.created.length ≤ id → resultsOf id pool.log = []

section Pool

variable {default : Attribute → Bool} {session : Option ℕ} {pool : EndpointPool}

/-- A new call of another client. -/
theorem PoolKept.enter (h : PoolKept default session pool)
    (hop : ∀ id, op = .takeCall id → id < pool.shared.created.length ∧ session ≠ some id) :
    PoolKept default session
      { pool with calls := pool.calls ++ [(op, endpointThreads.enter op)] } where
  holds := (endpointThreads_kept default).step h.holds (fun _ _ _ _ _ _ => trivial)
    (rfl : endpointThreads.step pool (.enter op) = some _)
  session_lt := h.session_lt
  taking := by
    intro j op' id hj
    by_cases hlt : j < pool.calls.length
    · rw [List.getElem?_append_left hlt] at hj
      exact h.taking j op' id hj
    · rw [List.getElem?_append_right (Nat.not_lt.mp hlt), List.getElem?_singleton] at hj
      split at hj
      · obtain ⟨rfl, hl⟩ := Prod.mk.inj (Option.some.inj hj)
        refine hop id ?_
        cases op with
        | takeCall id' =>
          cases hl
          rfl
        | packetHook | newSession | removeSession | sendPacket | close | closeSession
        | setAttribute =>
          cases hl
      · cases hj
  fresh := h.fresh

section Move

variable {j : ℕ} {op : EndpointOp} {l l' : EndpointLocal} {sent : Bool} {s' : EndpointShared}
  {events : List EndpointEvent}

/-- A move of any call: nothing is taken from the session of the client. -/
theorem PoolKept.move (h : PoolKept default session pool) (hj : pool.calls[j]? = some (op, l))
    (hnext : endpointNext sent pool.shared l = some (s', l', events)) :
    PoolKept default session ⟨s', pool.calls.set j (op, l'), pool.log ++ ownedBy j events⟩ ∧
      ∀ id, session = some id ∨ pool.shared.created.length ≤ id →
        resultsOf id (pool.log ++ ownedBy j events) = resultsOf id pool.log := by
  obtain ⟨heffect, hpath⟩ := endpoint_move hnext
  have hlength := heffect.created_length
  have hresults : ∀ id, session = some id ∨ pool.shared.created.length ≤ id →
      resultsOf id (pool.log ++ ownedBy j events) = resultsOf id pool.log := by
    intro id hid
    rw [resultsOf_append, resultsOf_effect heffect j, List.append_nil]
    rintro rfl
    obtain ⟨hlt, hne⟩ := h.taking j op id hj
    rcases hid with hid | hid
    · exact hne hid
    · omega
  refine ⟨⟨?_, fun id hid => ?_, fun k op' id hk => ?_, fun id hid => ?_⟩, hresults⟩
  · exact (endpointThreads_kept default).step h.holds (fun _ _ _ _ _ _ => trivial)
      (Threads.step_move hj hnext)
  · exact (h.session_lt id hid).trans_le hlength
  · obtain ⟨hlt, hne⟩ := h.taking k op' id (taking_of_path (endpoint_move hnext).2 hk).2
    exact ⟨hlt.trans_le hlength, hne⟩
  · have hlt := hlength.trans hid
    show resultsOf id (pool.log ++ ownedBy j events) = []
    rw [hresults id (.inr hlt)]
    exact h.fresh id hlt

/-- The session of the client is created. -/
theorem PoolKept.opened (h : PoolKept default none pool) (hj : pool.calls[j]? = some (op, l))
    (hnext : endpointNext sent pool.shared l = some (s', .opened id, events)) :
    PoolKept default (some id)
        ⟨s', pool.calls.set j (op, .opened id), pool.log ++ ownedBy j events⟩ ∧
      resultsOf id (pool.log ++ ownedBy j events) = [] := by
  obtain ⟨hkept, hresults⟩ := h.move hj hnext
  cases (endpoint_move hnext).2 with
  | opened =>
    have hcreated : s' = pool.shared.insertSession := by
      obtain ⟨rfl, -, -⟩ := hnext
      rfl
    subst hcreated
    refine ⟨⟨hkept.holds, ?_, fun k op' id' hk => ?_, hkept.fresh⟩, ?_⟩
    · intro id hid
      cases hid
      show pool.shared.created.length < (pool.shared.created ++ [_]).length
      rw [List.length_append]
      exact Nat.lt_succ_self _
    · obtain ⟨hlt, -⟩ := h.taking k op' id' (taking_of_path (endpoint_move hnext).2 hk).2
      refine ⟨(hkept.taking k op' id' hk).1, fun heq => ?_⟩
      cases heq
      exact absurd hlt (Nat.lt_irrefl _)
    · rw [hresults _ (.inr (Nat.le_refl _))]
      exact h.fresh _ (Nat.le_refl _)

end Move

/-- The client takes from its session. -/
theorem PoolKept.take (h : PoolKept default (some id) pool) {pool' : EndpointPool}
    (hrun : run endpointThreads.step pool [.enter (.takeCall id), .move pool.calls.length true] =
      some pool') :
    PoolKept default (some id) pool' ∧
      pool.shared.created.length ≤ pool'.shared.created.length ∧
      (∀ k < pool.calls.length, pool'.calls[k]? = pool.calls[k]?) ∧
      ∃ e, pool'.log = pool.log ++ [(pool.calls.length, e)] ∧
        resultBy id e = some (ClientConnection.takeResult e) := by
  obtain ⟨entered, henter, hrest⟩ := Option.bind_eq_some_iff.mp hrun
  obtain ⟨moved, hmove, hmoved⟩ := Option.bind_eq_some_iff.mp hrest
  obtain rfl := Option.some.inj hmoved
  have hholds := (endpointThreads_kept default).step ((endpointThreads_kept default).step h.holds
    (fun _ _ _ _ _ _ => trivial) henter) (fun _ _ _ _ _ _ => trivial) hmove
  obtain rfl := Option.some.inj henter
  rcases Threads.step_cases hmove with ⟨_, hturn, -⟩ |
    ⟨i, sent, op, l, s', l', events, hturn, hcall, hnext, rfl⟩
  · cases hturn
  · cases hturn
    rw [List.getElem?_concat_length] at hcall
    cases hcall
    have hnext : endpointNext true pool.shared (.taking id) = some (s', l', events) := hnext
    obtain ⟨heffect, hpath⟩ := endpoint_move hnext
    have hlength := heffect.created_length
    obtain ⟨x, -, htake⟩ := Option.bind_eq_some_iff.mp hnext
    obtain ⟨e, rfl, he⟩ := takeMove_result htake
    refine ⟨⟨hholds, fun id' hid => (h.session_lt id' hid).trans_le hlength, ?_, ?_⟩, hlength,
      fun k hk => ?_, e, rfl, he⟩
    · intro k op' id' hk
      obtain ⟨hne, hk⟩ := taking_of_path hpath hk
      have hlt := (List.getElem?_eq_some_iff.mp hk).1
      rw [List.length_append, List.length_singleton] at hlt
      rw [List.getElem?_append_left (by omega)] at hk
      obtain ⟨hcreated, hsession⟩ := h.taking k op' id' hk
      exact ⟨hcreated.trans_le hlength, hsession⟩
    · intro id' hid
      have hfresh := hlength.trans hid
      have hne : EndpointLocal.taking id ≠ .taking id' := by
        intro heq
        cases heq
        exact absurd (h.session_lt id rfl) (Nat.not_lt.mpr hfresh)
      show resultsOf id' (pool.log ++ ownedBy pool.calls.length [e]) = []
      rw [resultsOf_append, resultsOf_effect heffect _ hne, h.fresh id' hfresh]
      rfl
    · show (List.set _ pool.calls.length _)[k]? = pool.calls[k]?
      rw [List.getElem?_set_ne (Nat.ne_of_gt hk), List.getElem?_append_left hk]

end Pool

end Uartbus.Analysis
