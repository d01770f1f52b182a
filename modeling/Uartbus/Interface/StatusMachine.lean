import Uartbus.Lib.Trace
import Uartbus.Model.Link

/-!
# The status machine of a node

What the link layer is for, without bytes and clocks: which status may follow which, and which
events go with it.  Three statuses stand between a start and an end event (`Bracket`), and the
machine keeps the events of each bracket alternating and in step with the status.
-/

set_option autoImplicit false

namespace Uartbus.Interface

open Lib Model

variable {es : List UartbusEvent} {s s' : UartbusStatus}

/-- The moves of the machine, with the events each of them gives. -/
inductive Moves : UartbusStatus → List UartbusEvent → UartbusStatus → Prop where
  | stay (s : UartbusStatus) : Moves s [] s
  | connect : Moves .connecting [] .idle
  | leaveDisconnected : Moves .disconnected [] .idle
  | endWait : Moves .fairwait [] .idle
  | prewait : Moves .idle [] .fairwait
  | startReceive : Moves .idle [.receiveStart] .receiving
  | startReceiveEarly : Moves .fairwait [.receiveStart] .receiving
  | endReceive : Moves .receiving [.receiveEnd] .fairwait
  | startSend : Moves .idle [.sendStart] .sending
  | endSend : Moves .sending [.sendEnd] .fairwait
  | collide : Moves .sending [.collisionStart, .sendEnd] .collision
  | endCollision : Moves .collision [.collisionEnd] .fairwait

/-- The pairs of a start and an end event. -/
inductive Bracket where
  | receive | send | collision
  deriving DecidableEq, Repr

namespace Bracket

def start : Bracket → UartbusEvent
  | receive => .receiveStart
  | send => .sendStart
  | collision => .collisionStart

def stop : Bracket → UartbusEvent
  | receive => .receiveEnd
  | send => .sendEnd
  | collision => .collisionEnd

/-- The status between the two events. -/
def status : Bracket → UartbusStatus
  | receive => .receiving
  | send => .sending
  | collision => .collision

/-- The events of one pair, out of all events. -/
def select (k : Bracket) (events : List UartbusEvent) : List UartbusEvent :=
  events.filter fun e => decide (e = k.start ∨ e = k.stop)

/-- The last event of the pair is a start. -/
def Open (k : Bracket) (events : List UartbusEvent) : Prop :=
  (k.select events).getLast? = some k.start

instance (k : Bracket) (events : List UartbusEvent) : Decidable (k.Open events) :=
  inferInstanceAs (Decidable (_ = _))

theorem start_ne_stop (k : Bracket) : k.start ≠ k.stop := by cases k <;> decide

@[simp] theorem select_append (k : Bracket) (l m : List UartbusEvent) :
    k.select (l ++ m) = k.select l ++ k.select m := by simp [select]

end Bracket

/-- Every pair alternates, and it is open exactly in its status. -/
def Bracketed (events : List UartbusEvent) (s : UartbusStatus) : Prop :=
  ∀ k : Bracket, Alternates k.start k.stop (k.select events) ∧ (s = k.status ↔ k.Open events)

/-- The machine does not go back to where it was before the first frame. -/
theorem Moves.not_back (h : Moves s es s') :
    (s' = .disconnected → s = .disconnected) ∧ (s' = .connecting → s = .connecting) := by
  cases h <;> simp

/-- What one move does to one pair: nothing, or it opens it, or it closes it. -/
theorem Moves.select (h : Moves s es s') (k : Bracket) :
    (k.select es = [] ∧ (s = k.status ↔ s' = k.status)) ∨
      (k.select es = [k.start] ∧ s ≠ k.status ∧ s' = k.status) ∨
      (k.select es = [k.stop] ∧ s = k.status ∧ s' ≠ k.status) := by
  cases h with
  | stay => exact .inl ⟨rfl, Iff.rfl⟩
  | connect | leaveDisconnected | endWait | prewait | startReceive | startReceiveEarly
  | endReceive | startSend | endSend | collide | endCollision => cases k <;> decide

/-- The machine keeps its events in brackets. -/
theorem Bracketed.move {events : List UartbusEvent} (h : Bracketed events s)
    (hmove : Moves s es s') :
    Bracketed (events ++ es) s' := by
  intro k
  obtain ⟨halt, hopen⟩ := h k
  unfold Bracket.Open at *
  rw [Bracket.select_append]
  rcases hmove.select k with ⟨hnone, hsame⟩ | ⟨hstart, hs, hs'⟩ | ⟨hstop, hs, hs'⟩
  · rw [hnone, List.append_nil]
    exact ⟨halt, hsame.symm.trans hopen⟩
  · rw [hstart, alternates_concat k.start_ne_stop]
    refine ⟨⟨halt, .inr ⟨fun hlast => hs (hopen.mpr hlast), rfl⟩⟩, ?_⟩
    simp [hs']
  · rw [hstop, alternates_concat k.start_ne_stop]
    refine ⟨⟨halt, .inl ⟨hopen.mp hs, rfl⟩⟩, ?_⟩
    simp [hs', k.start_ne_stop.symm]

end Uartbus.Interface
