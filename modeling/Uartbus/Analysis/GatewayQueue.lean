import Uartbus.Lib.Chain
import Uartbus.Model.Gateway
import Uartbus.Model.GatewayQueue

/-!
# The queue of the gateway is a bounded FIFO

`Linked q sending l` is the representation invariant: following `next` from the head visits the
entries of `l`, and these and the entry that is being sent are the ones in use.  An entry that is
not in use has no `next`, which is what makes a push end the chain although it does not clear the
pointer of the entry it links.  Each operation of the queue is one operation on `l`, and a run of
the gateway hands over the packets it has accepted in their order.
-/

set_option autoImplicit false

namespace Uartbus.Analysis

open Lib Model

variable {build : QueueBuild} {i send t : build.EntryIndex} {s : QueueSystem build}
  {q q' : EntryQueue build} {l : List build.EntryIndex} {g : ArduinoGateway}

/-! ## The representation invariant -/

/-- The `next` pointers of the pool. -/
def nextOf (q : EntryQueue build) (i : build.EntryIndex) : Option build.EntryIndex :=
  (q.entries i).next

/-- The queue holds the entries of `l`, in order, while `sending` is being copied. -/
structure Linked (q : EntryQueue build) (sending : Option build.EntryIndex)
    (l : List build.EntryIndex) : Prop where
  chain : Chain (nextOf q) q.head l
  nodup : l.Nodup
  apart : ∀ i ∈ l, sending ≠ some i
  tail_eq : q.tail = l.getLast?
  inUse_iff : ∀ i, (q.entries i).inUse = true ↔ i ∈ l ∨ sending = some i
  fresh : ∀ i, (q.entries i).inUse = false → nextOf q i = none

theorem linked_initial : Linked (EntryQueue.initial build) none [] where
  chain := rfl
  nodup := List.nodup_nil
  apart i hi := by cases hi
  tail_eq := rfl
  inUse_iff i := by simp [EntryQueue.initial]
  fresh _ _ := rfl

@[simp] theorem modifyEntry_self (q : EntryQueue build) (i : build.EntryIndex)
    (f : QueueEntry build → QueueEntry build) : (q.modifyEntry i f).entries i = f (q.entries i) :=
  Function.update_self ..

theorem modifyEntry_of_ne (q : EntryQueue build) {j : build.EntryIndex} (hne : j ≠ i)
    (f : QueueEntry build → QueueEntry build) : (q.modifyEntry i f).entries j = q.entries j :=
  Function.update_of_ne hne ..

/-- A store that leaves the pointer of the entry alone leaves all pointers alone. -/
theorem nextOf_modifyEntry (q : EntryQueue build) (i : build.EntryIndex)
    {f : QueueEntry build → QueueEntry build} (hf : ∀ e, (f e).next = e.next) :
    nextOf (q.modifyEntry i f) = nextOf q := by
  funext j
  by_cases hj : j = i
  · subst hj
    simp [nextOf, hf]
  · simp [nextOf, modifyEntry_of_ne q hj]

/-! ## Entering a packet -/

/-- An entry that has been chosen and filled but is not linked yet. -/
def prepared (q : EntryQueue build) (i : build.EntryIndex) (data : build.Packet) :
    EntryQueue build :=
  q.modifyEntry i fun e => { e with inUse := true, content := data }

/-- The entry a packet is put into is one that is not in use. -/
theorem queueEnqueueContent_of_hasFree (hfree : q.HasFree) (data : build.Packet) :
    ∃ i, (q.entries i).inUse = false ∧
      q.queueEnqueueContent data = (prepared q i data).queuePush i := by
  obtain ⟨j, hj⟩ := hfree
  cases hfind : (List.finRange build.maxQueueEntry).find? fun i => !(q.entries i).inUse with
  | none =>
    have hall := List.find?_eq_none.mp hfind j (List.mem_finRange j)
    simp [hj] at hall
  | some i =>
    have hi := List.find?_some hfind
    refine ⟨i, by simpa using hi, ?_⟩
    simp only [EntryQueue.queueEnqueueContent, EntryQueue.newQueueEntry, hfind, Option.map_some]
    simp [EntryQueue.modifyEntry, prepared]

/-- A full pool: the packet is dropped and nothing changes. -/
theorem queueEnqueueContent_of_full (hfull : ¬ q.HasFree) (data : build.Packet) :
    q.queueEnqueueContent data = q := by
  have hnone :
      (List.finRange build.maxQueueEntry).find? (fun i => !(q.entries i).inUse) = none := by
    rw [List.find?_eq_none]
    intro i _ hi
    exact hfull ⟨i, by simpa using hi⟩
  simp only [EntryQueue.queueEnqueueContent, EntryQueue.newQueueEntry, hnone, Option.map_none]

variable {q : EntryQueue build} {sending : Option build.EntryIndex} {l : List build.EntryIndex}

theorem Linked.not_mem_of_free (h : Linked q sending l) (hi : (q.entries i).inUse = false) :
    i ∉ l ∧ sending ≠ some i := by
  have hnot : ¬ (i ∈ l ∨ sending = some i) := fun hin => by
    have hused := (h.inUse_iff i).mpr hin
    rw [hi] at hused
    cases hused
  exact not_or.mp hnot

/-- What linking the prepared entry does: the pointers are those of a longer chain, and the entry
in use is the only other change. -/
structure PushedEntry (q q' : EntryQueue build) (i : build.EntryIndex) (data : build.Packet)
    (l : List build.EntryIndex) : Prop where
  chain : Chain (nextOf q') q'.head (l ++ [i])
  tail_eq : q'.tail = some i
  inUse_self : (q'.entries i).inUse = true
  inUse_of_ne : ∀ j, j ≠ i → (q'.entries j).inUse = (q.entries j).inUse
  content_self : (q'.entries i).content = data
  content_of_ne : ∀ j, j ≠ i → (q'.entries j).content = (q.entries j).content
  next_of_not_mem : ∀ j, j ∉ l → nextOf q' j = nextOf q j

theorem nextOf_prepared (q : EntryQueue build) (i : build.EntryIndex) (data : build.Packet) :
    nextOf (prepared q i data) = nextOf q :=
  nextOf_modifyEntry q i fun _ => rfl

theorem queuePush_empty (hhead : q.head = none) (i : build.EntryIndex) :
    q.queuePush i = ⟨q.entries, some i, some i⟩ := by
  simp only [EntryQueue.queuePush, if_pos hhead]

theorem queuePush_behind (hhead : q.head ≠ none) (htail : q.tail = some t) (i : build.EntryIndex) :
    q.queuePush i =
      ⟨(q.modifyEntry t fun e => { e with next := some i }).entries, q.head, some i⟩ := by
  simp only [EntryQueue.queuePush, if_neg hhead, htail]
  rfl

/-- The first entry of an empty queue. -/
theorem pushed_empty (h : Linked q sending []) (hi : (q.entries i).inUse = false)
    (data : build.Packet) : PushedEntry q ((prepared q i data).queuePush i) i data [] := by
  have hhead : (prepared q i data).head = none := h.chain
  rw [queuePush_empty hhead i]
  have hother : ∀ j, j ≠ i → (prepared q i data).entries j = q.entries j :=
    fun j hj => modifyEntry_of_ne q hj _
  refine ⟨⟨rfl, ?_⟩, rfl, ?_, fun j hj => ?_, ?_, fun j hj => ?_, fun j _ => ?_⟩
  · exact (congrFun (nextOf_prepared q i data) i).trans (h.fresh i hi)
  · simp [prepared]
  · simp only [hother j hj]
  · simp [prepared]
  · simp only [hother j hj]
  · exact congrFun (nextOf_prepared q i data) j

/-- An entry behind the last one. -/
theorem pushed_behind (h : Linked q sending (l ++ [t])) (hi : (q.entries i).inUse = false)
    (data : build.Packet) : PushedEntry q ((prepared q i data).queuePush i) i data (l ++ [t]) := by
  have hnew : i ∉ l ++ [t] := (h.not_mem_of_free hi).1
  have hne : i ≠ t := fun heq => hnew (heq ▸ List.mem_append_right l List.mem_cons_self)
  have hhead : (prepared q i data).head ≠ none := by
    intro hnone
    cases l with
    | nil => cases h.chain.1.symm.trans hnone
    | cons k l => cases h.chain.1.symm.trans hnone
  have htail : (prepared q i data).tail = some t := by
    rw [show (prepared q i data).tail = q.tail from rfl, h.tail_eq, List.getLast?_concat]
  rw [queuePush_behind hhead htail i]
  -- The only pointer that changes is that of the last entry.
  have hnext : (fun j => (((prepared q i data).modifyEntry t
      fun e => { e with next := some i }).entries j).next) =
        Function.update (nextOf q) t (some i) := by
    funext j
    rw [← nextOf_prepared q i data]
    by_cases hj : j = t
    · subst hj
      simp
    · simp [nextOf, modifyEntry_of_ne _ hj, Function.update_of_ne hj]
  have hother : ∀ j, j ≠ i →
      (((prepared q i data).modifyEntry t fun e => { e with next := some i }).entries j).inUse =
          (q.entries j).inUse ∧
        (((prepared q i data).modifyEntry t fun e => { e with next := some i }).entries j).content =
          (q.entries j).content := by
    intro j hj
    by_cases hjt : j = t
    · subst hjt
      simp [prepared, modifyEntry_of_ne q hj]
    · simp [prepared, modifyEntry_of_ne _ hjt, modifyEntry_of_ne q hj]
  refine ⟨?_, rfl, ?_, fun j hj => (hother j hj).1, ?_, fun j hj => (hother j hj).2, fun j hj => ?_⟩
  · rw [List.append_assoc]
    have hlonger := h.chain.extend h.nodup hnew (h.fresh i hi)
    rw [← hnext] at hlonger
    exact hlonger
  · simp [modifyEntry_of_ne _ hne, prepared]
  · simp [modifyEntry_of_ne _ hne, prepared]
  · have hjt : j ≠ t := fun heq => hj (heq ▸ List.mem_append_right l List.mem_cons_self)
    exact (congrFun hnext j).trans (Function.update_of_ne hjt ..)

theorem pushed_of_linked (h : Linked q sending l) (hi : (q.entries i).inUse = false)
    (data : build.Packet) : PushedEntry q ((prepared q i data).queuePush i) i data l := by
  rcases List.eq_nil_or_concat' l with rfl | ⟨l, t, rfl⟩
  · exact pushed_empty h hi data
  · exact pushed_behind h hi data

/-- Linking an entry that was free puts it behind the others. -/
theorem Linked.pushed (h : Linked q sending l) {data : build.Packet}
    (hi : (q.entries i).inUse = false) (hp : PushedEntry q q' i data l) :
    Linked q' sending (l ++ [i]) where
  chain := hp.chain
  nodup := by
    rw [List.nodup_append]
    refine ⟨h.nodup, List.nodup_singleton i, ?_⟩
    rintro j hj _ hmem rfl
    rw [List.mem_singleton] at hmem
    exact (h.not_mem_of_free hi).1 (hmem ▸ hj)
  apart := by
    intro j hj
    rcases List.mem_append.mp hj with hj | hj
    · exact h.apart j hj
    · rw [List.mem_singleton.mp hj]
      exact (h.not_mem_of_free hi).2
  tail_eq := by rw [hp.tail_eq, List.getLast?_concat]
  inUse_iff := by
    intro j
    by_cases hj : j = i
    · subst hj
      simp [hp.inUse_self]
    · simp [hp.inUse_of_ne j hj, h.inUse_iff j, hj]
  fresh := by
    intro j hj
    have hne : j ≠ i := by
      rintro rfl
      rw [hp.inUse_self] at hj
      cases hj
    rw [hp.inUse_of_ne j hne] at hj
    rw [hp.next_of_not_mem j (h.not_mem_of_free hj).1]
    exact h.fresh j hj

/-! ## Taking and freeing -/

/-- Taking unlinks the first entry, which stays in use. -/
theorem Linked.take (h : Linked q none l) (htake : q.queueTake = (some send, q')) :
    ∃ rest, l = send :: rest ∧ q'.entries = q.entries ∧ Linked q' (some send) rest := by
  cases l with
  | nil =>
    have hhead : q.head = none := h.chain
    simp [EntryQueue.queueTake, hhead] at htake
  | cons i rest =>
    obtain ⟨hhead, hrest⟩ := h.chain
    simp only [EntryQueue.queueTake, hhead, Prod.mk.injEq, Option.some.injEq] at htake
    obtain ⟨rfl, rfl⟩ := htake
    have hfirst : i ∉ rest := (List.nodup_cons.mp h.nodup).1
    refine ⟨rest, rfl, rfl, hrest, (List.nodup_cons.mp h.nodup).2, ?_, ?_, ?_, h.fresh⟩
    · intro j hj heq
      cases heq
      exact hfirst hj
    · cases rest with
      | nil =>
        have hlast : (q.entries i).next = none := hrest
        simp [hlast]
      | cons k rest =>
        have hmore : (q.entries i).next = some k := hrest.1
        simp [hmore, h.tail_eq]
    · intro j
      have hused := h.inUse_iff j
      simp only [List.mem_cons, reduceCtorEq, or_false] at hused
      rw [hused, Option.some.injEq, or_comm, eq_comm]

theorem Linked.free (h : Linked q (some send) l) : Linked (q.freeQueueEntry send) none l := by
  have hout : send ∉ l := fun hmem => h.apart send hmem rfl
  have hother : ∀ j, j ≠ send → (q.freeQueueEntry send).entries j = q.entries j :=
    fun j hj => modifyEntry_of_ne q hj _
  have hself : (q.freeQueueEntry send).entries send =
      { q.entries send with next := none, inUse := false } := modifyEntry_self q send _
  refine ⟨?_, h.nodup, by simp, h.tail_eq, ?_, ?_⟩
  · refine h.chain.congr fun j hj => ?_
    have hne : j ≠ send := fun heq => hout (heq ▸ hj)
    simp only [nextOf, hother j hne]
  · intro j
    by_cases hj : j = send
    · subst hj
      simp [hself, hout]
    · rw [hother j hj, h.inUse_iff j]
      simp [Ne.symm hj]
  · intro j hfree
    by_cases hj : j = send
    · subst hj
      simp [nextOf, hself]
    · rw [hother j hj] at hfree
      simp only [nextOf, hother j hj]
      exact h.fresh j hfree

/-! ## Runs of the gateway -/

/-- The entry that has been taken and not been freed. -/
def SendStage.entry : SendStage build → Option build.EntryIndex
  | .idle => none
  | .taken send => some send
  | .copied send => some send

/-- The packet that has been taken and not been copied. -/
def inTransit (s : QueueSystem build) : List build.Packet :=
  match s.stage with
  | .taken send => [(s.queue.entries send).content]
  | _ => []

/-- The packets of the entries. -/
def contents (q : EntryQueue build) (l : List build.EntryIndex) : List build.Packet :=
  l.map fun i => (q.entries i).content

/-- The queue of the system is linked, and what it has accepted is what it has handed over followed
by what it still holds. -/
def KeepsOrder (s : QueueSystem build) : Prop :=
  ∃ l, Linked s.queue (SendStage.entry s.stage) l ∧
    s.accepted = s.handed ++ inTransit s ++ contents s.queue l

/-- Contents depend on the entries of the list only. -/
theorem contents_congr (h : ∀ i ∈ l, (q'.entries i).content = (q.entries i).content) :
    contents q' l = contents q l :=
  List.map_congr_left h

theorem keepsOrder_initial : KeepsOrder (QueueSystem.initial build) :=
  ⟨[], linked_initial, rfl⟩

/-- A packet is put behind all others. -/
theorem keepsOrder_enqueue (h : KeepsOrder s) (hfree : s.queue.HasFree) (data : build.Packet) :
    KeepsOrder { s with
      queue := s.queue.queueEnqueueContent data
      accepted := s.accepted ++ [data] } := by
  obtain ⟨l, hl, hacc⟩ := h
  obtain ⟨i, hi, henq⟩ := queueEnqueueContent_of_hasFree hfree data
  have hp := pushed_of_linked hl hi data
  rw [← henq] at hp
  refine ⟨l ++ [i], hl.pushed hi hp, ?_⟩
  obtain ⟨hnew, hsend⟩ := hl.not_mem_of_free hi
  have hrest : contents (s.queue.queueEnqueueContent data) l = contents s.queue l :=
    contents_congr fun j hj => hp.content_of_ne j fun heq => hnew (heq ▸ hj)
  have hlast : contents (s.queue.queueEnqueueContent data) [i] = [data] := by
    simp [contents, hp.content_self]
  -- The entry that is being copied is in use, so it is not the one that is written.
  have htransit : inTransit { s with
      queue := s.queue.queueEnqueueContent data
      accepted := s.accepted ++ [data] } = inTransit s := by
    cases hstage : s.stage with
    | idle => simp [inTransit, hstage]
    | copied send => simp [inTransit, hstage]
    | taken send =>
      have hne : send ≠ i := by
        rintro rfl
        exact hsend (by rw [hstage]; rfl)
      simp [inTransit, hstage, hp.content_of_ne send hne]
  rw [htransit]
  simp only [contents, List.map_append] at hrest hlast hacc ⊢
  rw [hrest, hlast, hacc]
  simp

/-- Every action keeps the entries in the order in which they came. -/
theorem keepsOrder_step {s' : QueueSystem build} {a : QueueAction build} (h : KeepsOrder s)
    (hstep : s.step a = some s') : KeepsOrder s' := by
  cases a with
  | enqueue data =>
    simp only [QueueSystem.step, Option.some.injEq] at hstep
    subst hstep
    by_cases hfree : s.queue.HasFree
    · rw [if_pos hfree]
      exact keepsOrder_enqueue h hfree data
    · rw [if_neg hfree, queueEnqueueContent_of_full hfree]
      exact h
  | take =>
    obtain ⟨l, hl, hacc⟩ := h
    cases hstage : s.stage with
    | taken send => simp [QueueSystem.step, hstage] at hstep
    | copied send => simp [QueueSystem.step, hstage] at hstep
    | idle =>
      rw [hstage] at hl
      cases htake : s.queue.queueTake with
      | mk taken q' =>
        cases taken with
        | none =>
          simp only [QueueSystem.step, hstage, htake, Option.some.injEq] at hstep
          have hsame : q' = s.queue := by
            cases hhead : s.queue.head with
            | none => simpa [EntryQueue.queueTake, hhead] using htake.symm
            | some i => simp [EntryQueue.queueTake, hhead] at htake
          subst hstep hsame
          exact ⟨l, hl, by simpa [inTransit, hstage] using hacc⟩
        | some send =>
          simp only [QueueSystem.step, hstage, htake, Option.some.injEq] at hstep
          subst hstep
          obtain ⟨rest, rfl, hentries, hrest⟩ := hl.take htake
          refine ⟨rest, hrest, ?_⟩
          simpa [inTransit, hstage, contents, hentries] using hacc
  | copy =>
    obtain ⟨l, hl, hacc⟩ := h
    cases hstage : s.stage with
    | idle => simp [QueueSystem.step, hstage] at hstep
    | copied send => simp [QueueSystem.step, hstage] at hstep
    | taken send =>
      simp only [QueueSystem.step, hstage, Option.some.injEq] at hstep
      subst hstep
      rw [hstage] at hl
      exact ⟨l, hl, by simpa [inTransit, hstage] using hacc⟩
  | free =>
    obtain ⟨l, hl, hacc⟩ := h
    cases hstage : s.stage with
    | idle => simp [QueueSystem.step, hstage] at hstep
    | taken send => simp [QueueSystem.step, hstage] at hstep
    | copied send =>
      simp only [QueueSystem.step, hstage, Option.some.injEq] at hstep
      subst hstep
      rw [hstage] at hl
      refine ⟨l, hl.free, ?_⟩
      have hkeep : contents (s.queue.freeQueueEntry send) l = contents s.queue l :=
        contents_congr fun j hj => by
          have hne : j ≠ send := fun heq => hl.apart j hj (by rw [heq]; rfl)
          rw [EntryQueue.freeQueueEntry, modifyEntry_of_ne _ hne]
      rw [hkeep]
      simpa [inTransit, hstage] using hacc

/-- Every run keeps the queue linked and the packets in order. -/
theorem keepsOrder_run {acts : List (QueueAction build)}
    (hrun : run QueueSystem.step (QueueSystem.initial build) acts = some s) : KeepsOrder s :=
  run_invariant_all (fun _ _ _ hI h => keepsOrder_step hI h) keepsOrder_initial hrun

/-- A bounded FIFO in a linked list: what is reached from the head and the entry being copied are
the entries in use, each linked once, and the packets come out in the order they went in. -/
structure BoundedFifo (s : QueueSystem build) : Prop where
  reaches : ∃ l : List build.EntryIndex,
    Chain (nextOf s.queue) s.queue.head l ∧
    -- The entries in use.
    (∀ i, (s.queue.entries i).inUse = true ↔ i ∈ l ∨ SendStage.entry s.stage = some i) ∧
    (∀ i ∈ l, SendStage.entry s.stage ≠ some i) ∧
    -- No entry is linked twice.
    l.Nodup ∧
    (∀ i ∈ l, ∀ j ∈ l, ∀ k, nextOf s.queue i = some k → nextOf s.queue j = some k → i = j) ∧
    (∀ i ∈ l, ∀ k, nextOf s.queue i = some k → s.queue.head ≠ some k) ∧
    -- The tail.
    s.queue.tail = l.getLast? ∧
    (∀ t, s.queue.tail = some t → nextOf s.queue t = none) ∧
    -- The packets.
    s.accepted = s.handed ++ inTransit s ++ contents s.queue l
  full : ¬ s.queue.HasFree → ∀ data, s.queue.queueEnqueueContent data = s.queue

/-- For every build with a static pool and every sequence of packets from the PC and of calls of
`send_on_idle`, in whatever way their steps fall between each other.
SOURCE: bus_gateway_commons.c:51-125, 141-170 -/
theorem gatewayQueue_boundedFifo (build : QueueBuild) (acts : List (QueueAction build))
    (s : QueueSystem build)
    (hrun : run QueueSystem.step (QueueSystem.initial build) acts = some s) : BoundedFifo s := by
  obtain ⟨l, hl, hacc⟩ := keepsOrder_run hrun
  refine ⟨⟨l, hl.chain, hl.inUse_iff, hl.apart, hl.nodup, ?_, ?_, hl.tail_eq, ?_, hacc⟩,
    fun hfull data => queueEnqueueContent_of_full hfull data⟩
  · intro i hi j hj k hik hjk
    exact hl.chain.target_inj hl.nodup hi hj hik hjk
  · intro i hi k hik hhead
    have hbehind := hl.chain.target_mem_tail hi hik
    cases l with
    | nil => cases hi
    | cons m l =>
      cases hl.chain.1.symm.trans hhead
      exact (List.nodup_cons.mp hl.nodup).1 hbehind
  · intro t ht
    exact hl.chain.last (hl.tail_eq.symm.trans ht)

/-- Two entries.  While the first packet is copied a second one comes and fills the pool, so a
third one is dropped. -/
def smallQueueBuild : QueueBuild where
  maxQueueEntry := 2
  maxPacketSize := 4
  entries_pos := by decide
  entries_lt := by decide

def oneBytePacket (b : UInt8) : smallQueueBuild.Packet := ⟨[b], by simp [smallQueueBuild]⟩

def smallQueueActs : List (QueueAction smallQueueBuild) :=
  [.enqueue (oneBytePacket 1), .take, .enqueue (oneBytePacket 2), .copy, .enqueue (oneBytePacket 3),
    .free, .take, .copy]

/-- The run of `smallQueueActs`. -/
theorem smallQueue_boundedFifo :
    ∃ s, run QueueSystem.step (QueueSystem.initial smallQueueBuild) smallQueueActs = some s ∧
      s.accepted = [oneBytePacket 1, oneBytePacket 2] ∧
      s.handed = [oneBytePacket 1, oneBytePacket 2] ∧ BoundedFifo s :=
  ⟨_, rfl, rfl, rfl, gatewayQueue_boundedFifo smallQueueBuild smallQueueActs _ rfl⟩

/-! ## The packets from the PC -/

/-- The decoder starts over when its buffer is full, so what it puts into the queue fits. -/
theorem decodeByte_fits (maxPacketSize : ℕ) (s : Bool × Bytes) (b : UInt8) :
    ∀ p ∈ (PcDecoder.decodeByte maxPacketSize s b).2, p.length ≤ maxPacketSize := by
  intro p hp
  have hdecode : (if s.2.length ≥ maxPacketSize then [] else s.2).length ≤ maxPacketSize := by
    split
    · exact Nat.zero_le _
    · omega
  unfold PcDecoder.decodeByte at hp
  dsimp only at hp
  split at hp
  · split at hp
    · rw [List.mem_singleton.mp hp, PcDecoder.enqueuedContent, List.length_take]
      exact Nat.le_trans (Nat.min_le_right _ _) hdecode
    · cases hp
  · split at hp <;> cases hp

theorem arduinoStep_fits {maxPacketSize : ℕ} {g' : ArduinoGateway} {a : ArduinoAction}
    (h : ∀ p ∈ g.enqueued, p.length ≤ maxPacketSize)
    (hstep : arduinoStep maxPacketSize g a = some g') :
    ∀ p ∈ g'.enqueued, p.length ≤ maxPacketSize := by
  cases a with
  | arrive bytes =>
    cases hstep
    exact h
  | manage =>
    cases hstep
    intro p hp
    rcases List.mem_append.mp hp with hp | hp
    · exact h p hp
    · exact transduce_forall (decodeByte_fits maxPacketSize) _ _ p hp

/-- Every packet `manage_data_from_pc` gives to the queue of its build fits into an entry. -/
theorem enqueued_fits (acts : List ArduinoAction)
    (hrun : run (arduinoStep build.maxPacketSize) ArduinoGateway.initial acts = some g) :
    ∀ data ∈ g.enqueued, ∃ packet : build.Packet, packet.1 = data := by
  have hfits : ∀ p ∈ g.enqueued, p.length ≤ build.maxPacketSize :=
    run_invariant_all (I := fun g => ∀ p ∈ g.enqueued, p.length ≤ build.maxPacketSize)
      (fun _ _ _ h hstep => arduinoStep_fits h hstep) (fun _ hp => (by cases hp)) hrun
  exact fun data hdata => ⟨⟨data, hfits data hdata⟩, rfl⟩

end Uartbus.Analysis
