import Uartbus.Lib.Trace
import Uartbus.Model.Connector

/-!
# What the connector leaves in the log

The log read without the state: the streams that have been replaced, in order, and the readers
that have been taken.  The present generation is the number of replaced streams, and
`FitsGeneration` says of each entry how its generation relates to it.  `SendHistory` is what a
`send_packet` leaves.
-/

set_option autoImplicit false

namespace Uartbus.Interface

open Lib Model

/-- The generations whose streams have been replaced. -/
def replacedIn (log : List (ℕ × ConnectorEvent)) : List ℕ :=
  log.filterMap fun e => match e.2 with
    | .opened generation => some generation
    | _ => none

/-- The generations whose readers have been taken. -/
def takenIn (log : List (ℕ × ConnectorEvent)) : List ℕ :=
  log.filterMap fun e => match e.2 with
    | .tookReader generation => some generation
    | _ => none

/-- Streams are opened, writers written to and readers taken in the present generation only; a
report that does nothing is for another one. -/
def FitsGeneration (before : List (ℕ × ConnectorEvent)) (e : ℕ × ConnectorEvent) : Prop :=
  match e.2 with
  | .wrote generation _ _ | .opened generation | .openFailed generation
  | .tookReader generation => generation = (replacedIn before).length
  | .stale generation => generation ≠ (replacedIn before).length
  | _ => True

/-- The entry is not a write, or it is one that has failed after a part of the frame. -/
def FailedWrite (framed : Bytes) : ConnectorEvent → Prop
  | .wrote _ bytes ok => ok = false ∧ bytes <+: framed
  | _ => True

/-- Where a `send_packet` is, and what it has left in the log: one that has returned Ok has written
its frame in one go after writes that have failed, and any other has only such writes. -/
inductive SendHistory (framed : Bytes) : ConnectorLocal → List ConnectorEvent → Prop where
  | checking {own : List ConnectorEvent} (h : ∀ e ∈ own, FailedWrite framed e) :
      SendHistory framed (.sendChecking framed) own
  | writing {own : List ConnectorEvent} (h : ∀ e ∈ own, FailedWrite framed e) :
      SendHistory framed (.sendWriting framed) own
  | reporting {own : List ConnectorEvent} (generation : ℕ) (text : String)
      (h : ∀ e ∈ own, FailedWrite framed e) :
      SendHistory framed (.sendReporting framed generation text) own
  | sent {own : List ConnectorEvent} (generation : ℕ) (h : ∀ e ∈ own, FailedWrite framed e) :
      SendHistory framed (.sendEnded (.ok ())) (own ++ [.wrote generation framed true])
  | failed {own : List ConnectorEvent} (text : String) (h : ∀ e ∈ own, FailedWrite framed e) :
      SendHistory framed (.sendEnded (.error text)) own

end Uartbus.Interface
