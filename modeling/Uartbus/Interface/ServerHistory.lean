import Uartbus.Interface.EndpointHistory
import Uartbus.Model.Server

/-!
# What the history of a connection says

The log of a client connection read without its state.  `ServerFits` says of an entry that it is
right after what was before it: a request is read when the one before it has been answered or left
to the pump, and a response of the handler carries the trace of its request.  `AnswersInOrder`
compares the responses of the pump with the requests that were left to it and with the packets of
the session.
-/

set_option autoImplicit false

namespace Uartbus.Interface

open Lib Model

/-- The request is a `getNextPacket`. -/
def AsksNextPacket (request : Value) : Prop :=
  requestNamespace request = some serverNamespace ∧ requestFunction request = "getNextPacket"

/-- The response carries the trace of the request; none when the request has none. -/
def CarriesTrace (request response : Value) : Prop :=
  response.get "t" = (traceOf request).map .string

def queuedBy : ServerEvent → Option Value
  | .queued request => some request
  | _ => none

/-- The requests that were left to the pump. -/
def queuedIn (log : List ServerEvent) : List Value := log.filterMap queuedBy

def pumpedBy : ServerEvent → Option Value
  | .pumped response => some response
  | _ => none

/-- The responses that the pump has written. -/
def pumpedIn (log : List ServerEvent) : List Value := log.filterMap pumpedBy

def openAfter (request : Option Value) : ServerEvent → Option Value
  | .received request => some request
  | .queued _ | .answered _ _ | .answerFailed _ _ => none
  | .pumped _ | .pumpFailed _ => request

/-- The request that is being handled: it is neither answered nor left to the pump. -/
def openIn (log : List ServerEvent) : Option Value := log.foldl openAfter none

def answerFails : ServerEvent → Bool
  | .answerFailed _ _ => true
  | _ => false

/-- The event is a write that fails. -/
def writeFails : ServerEvent → Bool
  | .answerFailed _ _ | .pumpFailed _ => true
  | _ => false

/-- A request is read when the one before it has got its response or is left to the pump.  Only
`getNextPacket` is left to the pump.  A response of the handler is for the request that is being
handled and carries its trace; if that is a `getNextPacket`, none has been left to the pump before,
as long as writing succeeds. -/
def ServerFits (before : List ServerEvent) : ServerEvent → Prop
  | .received _ => openIn before = none ∧ ∀ e ∈ before, answerFails e = false
  | .queued request => openIn before = some request ∧ AsksNextPacket request
  | .answered request response =>
    openIn before = some request ∧ CarriesTrace request response ∧
      (AsksNextPacket request → (∀ e ∈ before, writeFails e = false) → queuedIn before = [])
  | .answerFailed request _ => openIn before = some request
  | .pumped _ | .pumpFailed _ => True

/-- The response to the request that was left to the pump as number `k`: it carries the packet with
this number of those that were put to the session, or the end of receive when the session is closed
and there is none. -/
def AnswersNumber (k id : ℕ) (log : List (ℕ × EndpointEvent)) (request response : Value) : Prop :=
  CarriesTrace request response ∧
    ((∃ packet, (putsTo id log)[k]? = some packet ∧
        response = nextPacketResponse (traceOf request) (.ok packet)) ∨
      closedIn id log = true ∧ (putsTo id log)[k]? = none ∧
        response = nextPacketResponse (traceOf request) (.error endOfReceive))

/-- The pump answers the requests in their order. -/
def AnswersInOrder (c : ClientConnection) : Prop :=
  ∀ k response, (pumpedIn c.log)[k]? = some response →
    ∃ request id, (queuedIn c.log)[k]? = some request ∧ c.session = some id ∧
      AnswersNumber k id c.pool.log request response

end Uartbus.Interface
