import Uartbus.Lib.Bytes
import Uartbus.Lib.Run
import Mathlib.Data.List.FinRange
import Mathlib.Logic.Function.Basic

/-!
# The queue of the Arduino gateway

The packets from the PC wait in a linked list whose entries come from a static pool.  A pointer to
an entry is its index in the pool, `NULL` is `none`.  The serial line puts packets in
(`queueEnqueueContent`); the bus takes them out in `send_on_idle`, whose two atomic blocks and the
copy between them are three steps, since bytes from the PC may be handled between any two of them.
-/

set_option autoImplicit false

namespace Uartbus.Model

/-- The constants of a build with a static pool: `MAX_QUEUE_ENTRY` 0 selects `malloc`, and the
index of the search for a free entry is a `uint8_t`.
SOURCE: bus_gateway_commons.c:11-17, 62 -/
structure QueueBuild where
  maxQueueEntry : ℕ
  maxPacketSize : ℕ
  entries_pos : 0 < maxQueueEntry
  entries_lt : maxQueueEntry < 256

namespace QueueBuild

variable (build : QueueBuild)

/-- A pointer to an entry of the pool that is not `NULL`. -/
abbrev EntryIndex : Type := Fin build.maxQueueEntry

/-- What the array `data` of an entry can hold, with its `size`. -/
def Packet : Type := { data : Bytes // data.length ≤ build.maxPacketSize }

instance : DecidableEq build.Packet :=
  inferInstanceAs (DecidableEq { data : Bytes // data.length ≤ build.maxPacketSize })

end QueueBuild

/-- An entry of the pool: `content` are the first `size` bytes of its `data`.
SOURCE: bus_gateway_commons.c:19-27 -/
structure QueueEntry (build : QueueBuild) where
  next : Option build.EntryIndex
  inUse : Bool
  content : build.Packet

/-- The queue `from_serial` and its pool `queue_entries`.
SOURCE: bus_gateway_commons.c:29-40 -/
structure EntryQueue (build : QueueBuild) where
  entries : build.EntryIndex → QueueEntry build
  head : Option build.EntryIndex
  tail : Option build.EntryIndex

namespace EntryQueue

variable {build : QueueBuild}

/-- The state after the start: static memory is zero. -/
def initial (build : QueueBuild) : EntryQueue build where
  entries _ := { next := none, inUse := false, content := ⟨[], Nat.zero_le _⟩ }
  head := none
  tail := none

/-- A store into one entry. -/
def modifyEntry (q : EntryQueue build) (ent : build.EntryIndex)
    (f : QueueEntry build → QueueEntry build) : EntryQueue build :=
  { q with entries := Function.update q.entries ent (f (q.entries ent)) }

/-- SOURCE: bus_gateway_commons.c:51-73 -/
def newQueueEntry (q : EntryQueue build) : Option (build.EntryIndex × EntryQueue build) :=
  ((List.finRange build.maxQueueEntry).find? fun i => !(q.entries i).inUse).map fun i =>
    (i, q.modifyEntry i fun e => { e with inUse := true })

/-- SOURCE: bus_gateway_commons.c:75-83 -/
def freeQueueEntry (q : EntryQueue build) (ent : build.EntryIndex) : EntryQueue build :=
  q.modifyEntry ent fun e => { e with next := none, inUse := false }

/-- The entry that was pushed keeps its own `next`.
SOURCE: bus_gateway_commons.c:85-97 -/
def queuePush (q : EntryQueue build) (ent : build.EntryIndex) : EntryQueue build :=
  if q.head = none then { q with head := some ent, tail := some ent }
  else
    match q.tail with
    | some t => { q.modifyEntry t fun e => { e with next := some ent } with tail := some ent }
    -- A store through `NULL`: no queue that is reached has a head and no tail.
    | none => q

/-- SOURCE: bus_gateway_commons.c:99-111 -/
def queueTake (q : EntryQueue build) : Option build.EntryIndex × EntryQueue build :=
  match q.head with
  | some ret =>
    (some ret, { q with
      head := (q.entries ret).next
      tail := if (q.entries ret).next = none then none else q.tail })
  | none => (none, q)

/-- SOURCE: bus_gateway_commons.c:113-125 -/
def queueEnqueueContent (q : EntryQueue build) (data : build.Packet) : EntryQueue build :=
  match q.newQueueEntry with
  | some (add, q) => (q.modifyEntry add fun e => { e with content := data }).queuePush add
  | none => q

/-- Some entry of the pool is not in use. -/
def HasFree (q : EntryQueue build) : Prop := ∃ i, (q.entries i).inUse = false

instance (q : EntryQueue build) : Decidable q.HasFree :=
  inferInstanceAs (Decidable (∃ i, (q.entries i).inUse = false))

end EntryQueue

/-- Where `send_on_idle` is, with its variable `send`. -/
inductive SendStage (build : QueueBuild) where
  /-- It is not running, or has returned. -/
  | idle
  /-- The first atomic block has taken the entry. -/
  | taken (send : build.EntryIndex)
  /-- The content is in `send_data`. -/
  | copied (send : build.EntryIndex)
  deriving DecidableEq

/-- The queue between the serial line and the bus.  `accepted` records the packets that were given
to `queue_enqueue_content` while an entry was free, `handed` what `send_on_idle` has put into
`send_data`. -/
structure QueueSystem (build : QueueBuild) where
  queue : EntryQueue build
  stage : SendStage build
  accepted : List build.Packet
  handed : List build.Packet

inductive QueueAction (build : QueueBuild) where
  /-- `queue_enqueue_content` is called for a packet from the PC. -/
  | enqueue (data : build.Packet)
  /-- The bus calls `send_on_idle`, up to the end of its first atomic block. -/
  | take
  /-- The `memcpy` to `send_data`. -/
  | copy
  /-- The second atomic block. -/
  | free

namespace QueueSystem

variable {build : QueueBuild}

def initial (build : QueueBuild) : QueueSystem build where
  queue := EntryQueue.initial build
  stage := .idle
  accepted := []
  handed := []

/-- `send_on_idle` is called from one place, so its steps follow each other; packets come at any
time.
SOURCE: bus_gateway_commons.c:141-170 -/
def step (s : QueueSystem build) : QueueAction build → Option (QueueSystem build)
  | .enqueue data =>
    some { s with
      queue := s.queue.queueEnqueueContent data
      accepted := if s.queue.HasFree then s.accepted ++ [data] else s.accepted }
  | .take =>
    match s.stage with
    | .idle =>
      match s.queue.queueTake with
      | (some send, queue) => some { s with queue := queue, stage := .taken send }
      | (none, queue) => some { s with queue := queue }
    | _ => none
  | .copy =>
    match s.stage with
    | .taken send =>
      some { s with
        stage := .copied send
        handed := s.handed ++ [(s.queue.entries send).content] }
    | _ => none
  | .free =>
    match s.stage with
    | .copied send => some { s with queue := s.queue.freeQueueEntry send, stage := .idle }
    | _ => none

end QueueSystem

end Uartbus.Model
