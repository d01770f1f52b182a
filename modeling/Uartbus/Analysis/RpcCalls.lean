import Uartbus.Interface.ClientHistory

/-!
# The calls of the client

A waiter in the map and a message in a channel are of the call with their number (`ClientKept`), so
a call can only get a response that carries its own.  The reader sets the flag and empties the map
in one critical section, and no waiter is inserted under the flag: after the end of the reader the
map stays empty, and every channel without a message has lost its sender.
-/

set_option autoImplicit false

namespace Uartbus.Analysis

open Lib Model Interface

variable {log' : List (ℕ × ClientEvent)} {s s' : ClientShared} {p : ClientPool}

/-- The channel was made by a call with this number. -/
def ChannelOf (s : ClientShared) (channel : ℕ) (tid : UInt64) : Prop :=
  ∃ x, s.channels[channel]? = some x ∧ x.tid = tid

/-- What the reader holds. -/
def ReaderFits (s : ClientShared) : Prop :=
  match s.reader with
  | .sending response channel => ∃ tid, ChannelOf s channel tid ∧ responseTid response = some tid
  | .terminated => s.closed = true
  | _ => True

structure ClientKept (s : ClientShared) (_ : List (ℕ × ClientEvent)) : Prop where
  waiting : ∀ w ∈ s.waiting, ChannelOf s w.2 w.1
  messages : ∀ (channel : ℕ) (x : CallChannel), s.channels[channel]? = some x →
    ∀ response ∈ x.messages, responseTid response = some x.tid
  reader : ReaderFits s
  closed : s.closed = true → s.waiting = []

/-- The channel of a call. -/
def channelIn : CallLocal → Option (UInt64 × ℕ)
  | .inserting _ tid channel | .writing _ tid channel | .receiving tid channel =>
    some (tid, channel)
  | _ => none

def CallKept (s : ClientShared) (call : ClientCall) (l : CallLocal) (own : List ClientEvent) :
    Prop :=
  CallHistory call l own ∧ ∀ tid channel, channelIn l = some (tid, channel) →
    ChannelOf s channel tid

theorem clientKept_new : ClientKept ClientShared.new [] where
  waiting := fun _ h => by cases h
  messages := fun _ _ h => by cases h
  reader := trivial
  closed := fun _ => rfl

/-! ## The shared state -/

section Shared

variable {s s' : ClientShared} {log : List (ℕ × ClientEvent)} {channel : ℕ} {tid : UInt64}
  {x : CallChannel}

/-- A channel stays the one of its call when its messages change. -/
theorem ChannelOf.withMessages {channel' : ℕ} (h : ChannelOf s channel tid)
    (hx : s.channels[channel']? = some x) (messages : List Value) :
    ChannelOf (s.withMessages channel' x messages) channel tid := by
  obtain ⟨y, hy, htid⟩ := h
  unfold ChannelOf ClientShared.withMessages
  by_cases hchannel : channel' = channel
  · subst hchannel
    obtain rfl := Option.some.inj (hx.symm.trans hy)
    exact ⟨_, List.getElem?_set_self (List.getElem?_eq_some_iff.mp hx).1, htid⟩
  · exact ⟨y, by rw [List.getElem?_set_ne hchannel, hy], htid⟩

theorem ChannelOf.append (h : ChannelOf s channel tid)
    (hchannels : s'.channels = s.channels ++ [x]) : ChannelOf s' channel tid := by
  obtain ⟨y, hy, htid⟩ := h
  refine ⟨y, ?_, htid⟩
  rw [hchannels, List.getElem?_append_left (List.getElem?_eq_some_iff.mp hy).1, hy]

theorem ReaderFits.mono (h : ReaderFits s) (hreader : s'.reader = s.reader)
    (hclosed : s'.closed = s.closed)
    (hchannels : ∀ channel tid, ChannelOf s channel tid → ChannelOf s' channel tid) :
    ReaderFits s' := by
  unfold ReaderFits at h ⊢
  rw [hreader]
  cases hs : s.reader with
  | sending response channel =>
    rw [hs] at h
    obtain ⟨tid, hchannel, htid⟩ := h
    exact ⟨tid, hchannels channel tid hchannel, htid⟩
  | terminated =>
    rw [hs] at h
    exact hclosed.trans h
  | reading | removing | ending => exact trivial

theorem findWaiter_mem (h : s.findWaiter tid = some channel) : (tid, channel) ∈ s.waiting := by
  obtain ⟨w, hw, rfl⟩ := Option.map_eq_some_iff.mp h
  have hfound := List.find?_some hw
  rw [← of_decide_eq_true hfound]
  exact List.mem_of_find?_eq_some hw

variable (h : ClientKept s log)
include h

/-- Nothing is said about the log. -/
theorem ClientKept.anyLog : ClientKept s log' := ⟨h.waiting, h.messages, h.reader, h.closed⟩

/-- A new channel is empty. -/
theorem ClientKept.number :
    ClientKept
      { s with nextTid := s.nextTid + 1, channels := s.channels ++ [⟨s.nextTid + 1, []⟩] }
      log' where
  waiting := fun w hw => (h.waiting w hw).append rfl
  messages := by
    intro channel x hx
    by_cases hlt : channel < s.channels.length
    · rw [List.getElem?_append_left hlt] at hx
      exact h.messages channel x hx
    · rw [List.getElem?_append_right (Nat.not_lt.mp hlt), List.getElem?_singleton] at hx
      split at hx
      · cases hx
        simp
      · cases hx
  reader := h.reader.mono rfl rfl fun _ _ hchannel => hchannel.append rfl
  closed := h.closed

theorem ClientKept.removeWaiter (tid : UInt64) : ClientKept (s.removeWaiter tid) log' where
  waiting := fun w hw => h.waiting w (List.mem_filter.mp hw).1
  messages := h.messages
  reader := h.reader
  closed := fun hclosed => by
    show s.waiting.filter _ = []
    rw [h.closed hclosed]
    rfl

/-- A waiter is inserted only while the connection is open. -/
theorem ClientKept.insertWaiter (hopen : s.closed = false) (hchannel : ChannelOf s channel tid) :
    ClientKept (s.insertWaiter tid channel) log' where
  waiting := fun w hw => by
    rcases List.mem_cons.mp hw with rfl | hw
    · exact hchannel
    · exact h.waiting w (List.mem_filter.mp hw).1
  messages := h.messages
  reader := h.reader
  closed := fun hclosed => by
    rw [ClientShared.insertWaiter, hopen] at hclosed
    cases hclosed

theorem ClientKept.withMessages (hx : s.channels[channel]? = some x) {messages : List Value}
    (hmessages : ∀ response ∈ messages, responseTid response = some x.tid) :
    ClientKept (s.withMessages channel x messages) log' where
  waiting := fun w hw => (h.waiting w hw).withMessages hx messages
  messages := by
    intro channel' y hy
    unfold ClientShared.withMessages at hy
    by_cases hchannel : channel = channel'
    · subst hchannel
      rw [List.getElem?_set_self (List.getElem?_eq_some_iff.mp hx).1] at hy
      cases hy
      exact hmessages
    · rw [List.getElem?_set_ne hchannel] at hy
      exact h.messages channel' y hy
  reader := h.reader.mono rfl rfl fun _ _ hchannel => hchannel.withMessages hx messages
  closed := h.closed

/-- What the reader holds is all that changes. -/
theorem ClientKept.withReader {reader : ReaderLocal}
    (hreader : ReaderFits { s with reader := reader }) :
    ClientKept { s with reader := reader } log :=
  ⟨h.waiting, h.messages, hreader, h.closed⟩

end Shared

/-! ## The calls -/

/-- A move of any call leaves a channel with its transaction. -/
theorem ChannelOf.callNext {failure : Option String} {l l' : CallLocal} {events : List ClientEvent}
    {channel : ℕ} {tid : UInt64} (h : ChannelOf s channel tid)
    (hnext : callNext failure s l = some (s', l', events)) : ChannelOf s' channel tid := by
  cases l with
  | starting call =>
    obtain ⟨rfl, -, -⟩ := hnext
    exact h.append rfl
  | inserting call tid' channel' =>
    rw [Model.callNext] at hnext
    split at hnext
    all_goals
      obtain ⟨rfl, -, -⟩ := hnext
      exact h
  | writing call tid' channel' =>
    cases failure with
    | none | some =>
      obtain ⟨rfl, -, -⟩ := hnext
      exact h
  | removing tid' text =>
    obtain ⟨rfl, -, -⟩ := hnext
    exact h
  | receiving tid' channel' =>
    obtain ⟨x, hx, hmove⟩ := Option.bind_eq_some_iff.mp hnext
    unfold receiveMove at hmove
    split at hmove
    · obtain ⟨rfl, -, -⟩ := hmove
      exact h.withMessages hx _
    · split at hmove
      · cases hmove
      · obtain ⟨rfl, -, -⟩ := hmove
        exact h
  | ended result => cases hnext

/-- Entering a call and every move of one keep the channels and their waiters. -/
theorem clientThreads_kept : clientThreads.Kept (fun _ _ _ => True) ClientKept CallKept where
  enter := by
    intro s log call _
    exact ⟨.starting, fun _ _ h => by cases h⟩
  own := by
    intro s log i call l failure s' l' events hI hA _ hnext
    obtain ⟨hhistory, hchannel⟩ := hA
    have hnext : callNext failure s l = some (s', l', events) := hnext
    generalize callEvents i log = own at hhistory
    cases hhistory with
    | starting =>
      obtain ⟨rfl, rfl, rfl⟩ := hnext
      refine ⟨hI.number, .inserting _ _, fun tid channel h => ?_⟩
      cases h
      exact ⟨_, List.getElem?_concat_length, rfl⟩
    | inserting tid channel =>
      rw [callNext] at hnext
      split at hnext
      next hclosed =>
        obtain ⟨rfl, rfl, rfl⟩ := hnext
        exact ⟨hI.anyLog, .refused tid, fun _ _ h => by cases h⟩
      next hopen =>
        obtain ⟨rfl, rfl, rfl⟩ := hnext
        exact ⟨hI.insertWaiter (Bool.eq_false_iff.mpr hopen) (hchannel tid channel rfl),
          .writing tid channel, hchannel⟩
    | writing tid channel =>
      cases failure with
      | none =>
        obtain ⟨rfl, rfl, rfl⟩ := hnext
        exact ⟨hI.anyLog, .receiving tid channel, hchannel⟩
      | some text =>
        obtain ⟨rfl, rfl, rfl⟩ := hnext
        exact ⟨hI.anyLog, .removing tid text,
          fun _ _ h => by cases h⟩
    | removing tid text =>
      obtain ⟨rfl, rfl, rfl⟩ := hnext
      exact ⟨hI.removeWaiter tid, .failed tid text, fun _ _ h => by cases h⟩
    | receiving tid channel =>
      obtain ⟨x, hx, hmove⟩ := Option.bind_eq_some_iff.mp hnext
      obtain ⟨y, hy, htid⟩ := hchannel tid channel rfl
      obtain rfl := Option.some.inj (hx.symm.trans hy)
      unfold receiveMove at hmove
      cases hmessages : x.messages with
      | cons response messages =>
        rw [hmessages] at hmove
        obtain ⟨rfl, rfl, rfl⟩ := hmove
        have hall := hI.messages channel x hx
        rw [hmessages] at hall
        refine ⟨hI.withMessages hx fun r hr => hall r (List.mem_cons_of_mem _ hr),
          .received tid response ?_, fun _ _ h => by cases h⟩
        rw [hall response (List.mem_cons_self ..), htid]
      | nil =>
        rw [hmessages] at hmove
        cases hsender : s.hasSender channel with
        | true => simp [hsender] at hmove
        | false =>
          simp only [hsender] at hmove
          obtain ⟨rfl, rfl, rfl⟩ := hmove
          exact ⟨hI.anyLog, .disconnected tid,
            fun _ _ h => by cases h⟩
    | refused | failed | received | disconnected => cases hnext
  other := by
    intro s log i call l failure s' l' events call' m own _ _ hA _ hnext
    exact ⟨hA.1, fun tid channel h => (hA.2 tid channel h).callNext hnext⟩

/-! ## The reader -/

/-- A move of the reader: it sends a response to the channel of the call with its number. -/
theorem ClientKept.readerMove {log : List (ℕ × ClientEvent)} (h : ClientKept s log)
    (hmove : readerMove s = some s') :
    ClientKept s' log ∧ ∀ channel tid, ChannelOf s channel tid → ChannelOf s' channel tid := by
  have hfits := h.reader
  unfold ReaderFits at hfits
  unfold Model.readerMove at hmove
  split at hmove
  next => cases hmove
  next => cases hmove
  next response _ =>
    split at hmove
    next =>
      obtain rfl := Option.some.inj hmove
      exact ⟨h.withReader trivial, fun _ _ => id⟩
    next tid htid =>
      split at hmove
      next =>
        obtain rfl := Option.some.inj hmove
        exact ⟨h.withReader trivial, fun _ _ => id⟩
      next channel hwaiter =>
        obtain rfl := Option.some.inj hmove
        have hremoved : ClientKept (s.removeWaiter tid) log := h.removeWaiter tid
        exact ⟨hremoved.withReader ⟨tid, h.waiting _ (findWaiter_mem hwaiter), htid⟩,
          fun _ _ => id⟩
  next response channel hreader =>
    rw [hreader] at hfits
    obtain ⟨tid, ⟨y, hy, rfl⟩, htid⟩ := hfits
    obtain ⟨x, hx, rfl⟩ := Option.map_eq_some_iff.mp hmove
    obtain rfl := Option.some.inj (hx.symm.trans hy)
    have hsent : ClientKept (s.withMessages channel x (x.messages ++ [response])) log := by
      refine h.withMessages hx (List.forall_mem_append.mpr ⟨h.messages channel x hx, ?_⟩)
      exact List.forall_mem_singleton.mpr htid
    exact ⟨hsent.withReader trivial, fun _ _ hchannel => hchannel.withMessages hx _⟩
  next =>
    obtain rfl := Option.some.inj hmove
    exact ⟨⟨by simp, h.messages, rfl, fun _ => rfl⟩, fun _ _ => id⟩

/-! ## Every interleaving -/

def ClientHolds (p : ClientPool) : Prop := Threads.Holds ClientKept CallKept p

/-- So does every turn of the client, the reader's included. -/
theorem ClientHolds.step {p' : ClientPool} {turn : ClientTurn} (h : ClientHolds p)
    (hstep : clientStep p turn = some p') : ClientHolds p' := by
  have hcalls : ∀ {s : ClientShared},
      (∀ channel tid, ChannelOf p.shared channel tid → ChannelOf s channel tid) →
      ∀ call l own, CallKept p.shared call l own → CallKept s call l own := by
    intro s hchannels call l own hkept
    exact ⟨hkept.1, fun tid channel hin => hchannels channel tid (hkept.2 tid channel hin)⟩
  cases turn with
  | calls turn => exact clientThreads_kept.step h (fun _ _ _ _ _ _ => trivial) hstep
  | line line =>
    obtain ⟨s, hline, rfl⟩ := Option.map_eq_some_iff.mp hstep
    unfold readerLine at hline
    split at hline
    on_goal 3 => cases hline
    all_goals
      obtain rfl := Option.some.inj hline
      exact h.withShared (h.1.withReader trivial) (hcalls fun _ _ => id)
  | reader =>
    obtain ⟨s, hmove, rfl⟩ := Option.map_eq_some_iff.mp hstep
    obtain ⟨hkept, hchannels⟩ := h.1.readerMove hmove
    exact h.withShared hkept (hcalls hchannels)

/-- After the end of the reader no call waits. -/
theorem ClientHolds.return (h : ClientHolds p) (hreader : p.shared.reader = .terminated) :
    p.shared.waiting = [] ∧ CallsReturn p := by
  have hfits := h.1.reader
  unfold ReaderFits at hfits
  rw [hreader] at hfits
  have hwaiting := h.1.closed hfits
  refine ⟨hwaiting, fun i call l failure hcall => ?_⟩
  obtain ⟨hhistory, hchannel⟩ := h.2.1 i call l hcall
  have hmoves : ∀ {s' l' events}, callNext failure p.shared l = some (s', l', events) →
      GoesOn p.shared l l' → ∃ l' p', clientStep p (.calls (.move i failure)) = some p' ∧
        p'.calls[i]? = some (call, l') ∧ GoesOn p.shared l l' := by
    intro s' l' events hnext hgoes
    exact ⟨l', _, Threads.step_move hcall hnext,
      List.getElem?_set_self (List.getElem?_eq_some_iff.mp hcall).1, hgoes⟩
  cases l with
  | starting | removing => exact .inr (hmoves rfl trivial)
  | inserting call' tid channel =>
    have hnext : callNext failure p.shared (.inserting call' tid channel) =
        some (p.shared, .ended (.error connectionClosed), [.refused]) := by
      rw [callNext, if_pos hfits]
    exact .inr (hmoves hnext rfl)
  | writing call' tid channel =>
    cases failure <;> exact .inr (hmoves rfl trivial)
  | receiving tid channel =>
    obtain ⟨x, hx, -⟩ := hchannel tid channel rfl
    obtain ⟨s', events, hnext⟩ : ∃ s' events, callNext failure p.shared (.receiving tid channel) =
        some (s', .ended (lastResult x.messages), events) := by
      rw [callNext, hx, Option.bind_some, receiveMove]
      cases x.messages with
      | cons response messages => exact ⟨_, _, rfl⟩
      | nil =>
        have hsender : p.shared.hasSender channel = false := by
          rw [ClientShared.hasSender, hwaiting, hreader]
          rfl
        rw [hsender]
        exact ⟨_, _, rfl⟩
    refine .inr (hmoves hnext fun y hy => ?_)
    rw [Option.some.inj (hx.symm.trans hy)]
  | ended result => exact .inl ⟨result, rfl⟩

/-- **No call is left hanging or crossed.**  In every interleaving of any number of calls with the
reader: every call has one of the histories of `CallHistory`, so that it receives at most one
response and only one that carries its own number; and after the end of the reader the map is empty
and every call that is not done goes on, without waiting, to the response it has got or to the
error.
SOURCE: rpc/client.rs:30-123 -/
theorem calls_not_crossed (turns : List ClientTurn) (p : ClientPool)
    (hrun : run clientStep (Pool.start ClientShared.new) turns = some p) :
    (∀ i call l, p.calls[i]? = some (call, l) → CallHistory call l (callEvents i p.log)) ∧
      (p.shared.reader = .terminated → p.shared.waiting = [] ∧ CallsReturn p) := by
  have hstart : ClientHolds (Pool.start ClientShared.new) :=
    ⟨clientKept_new, fun _ _ _ h => (by cases h), fun _ h => (by cases h)⟩
  have hholds := run_invariant_all (fun _ _ _ h hstep => ClientHolds.step h hstep) hstart hrun
  exact ⟨fun i call l hcall => (hholds.2.1 i call l hcall).1, hholds.return⟩

def sampleCall (function : String) : ClientCall := ⟨function, .array []⟩

/-- The second of two calls gets its response, then a response is for nobody, and then the
connection ends. -/
def sampleCallTurns : List ClientTurn :=
  [.calls (.enter (sampleCall "getNextPacket")), .calls (.enter (sampleCall "init")),
    .calls (.move 0 none), .calls (.move 1 none), .calls (.move 0 none), .calls (.move 1 none),
    .calls (.move 0 none), .calls (.move 1 none),
    .line (some (.object [("r", .null), ("t", .string "2")])), .reader, .reader,
    .line (some (.object [("t", .number (.posInt 9))])), .reader, .calls (.move 1 none), .line none,
    .reader]

/-- The answer to the second call comes and the connection ends: the first call fails. -/
theorem calls_not_crossed_sample :
    ∃ p, run clientStep (Pool.start ClientShared.new) sampleCallTurns = some p ∧
      p.calls[1]? = some (sampleCall "init", .ended (.ok .null)) ∧ p.shared.waiting = [] ∧
      ∃ p', clientStep p (.calls (.move 0 none)) = some p' ∧
        p'.calls[0]? = some (sampleCall "getNextPacket", .ended (.error connectionClosed)) := by
  obtain ⟨p, hrun, hfirst, hsecond, hchannel, hreader⟩ : ∃ p, run clientStep
      (Pool.start ClientShared.new) sampleCallTurns = some p ∧
        p.calls[0]? = some (sampleCall "getNextPacket", .receiving 1 0) ∧
        p.calls[1]? = some (sampleCall "init", .ended (.ok .null)) ∧
        p.shared.channels[0]? = some ⟨1, []⟩ ∧ p.shared.reader = .terminated :=
    ⟨_, rfl, rfl, rfl, rfl, rfl⟩
  obtain ⟨-, hended⟩ := calls_not_crossed sampleCallTurns p hrun
  obtain ⟨hwaiting, hreturn⟩ := hended hreader
  rcases hreturn 0 _ _ none hfirst with ⟨result, hresult⟩ | ⟨l', p', hstep, hcall, hgoes⟩
  · cases hresult
  · rw [hgoes _ hchannel] at hcall
    exact ⟨p, hrun, hsecond, hwaiting, p', hstep, hcall⟩

end Uartbus.Analysis
