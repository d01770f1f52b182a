import Uartbus.Model.TcpRpcClient

/-!
# What a call of the client leaves in the log

`CallHistory` lists the histories that a call can have, with where the call is: a call receives at
most one response, and only one that carries its number.
-/

set_option autoImplicit false

namespace Uartbus.Interface

open Model

/-- Where a call is, and what it has left in the log. -/
inductive CallHistory (call : ClientCall) : CallLocal → List ClientEvent → Prop
  | starting : CallHistory call (.starting call) []
  | inserting (tid : UInt64) (channel : ℕ) :
      CallHistory call (.inserting call tid channel) [.numbered tid]
  | refused (tid : UInt64) :
      CallHistory call (.ended (.error connectionClosed)) [.numbered tid, .refused]
  | writing (tid : UInt64) (channel : ℕ) :
      CallHistory call (.writing call tid channel) [.numbered tid, .inserted]
  | removing (tid : UInt64) (text : String) :
      CallHistory call (.removing tid text) [.numbered tid, .inserted, .writeFailed text]
  | failed (tid : UInt64) (text : String) :
      CallHistory call (.ended (.error text)) [.numbered tid, .inserted, .writeFailed text]
  | receiving (tid : UInt64) (channel : ℕ) :
      CallHistory call (.receiving tid channel)
        [.numbered tid, .inserted, .wrote (requestLine call tid)]
  | received (tid : UInt64) (response : Value) (htid : responseTid response = some tid) :
      CallHistory call (.ended (callResult response))
        [.numbered tid, .inserted, .wrote (requestLine call tid), .received response]
  | disconnected (tid : UInt64) :
      CallHistory call (.ended (.error connectionClosed))
        [.numbered tid, .inserted, .wrote (requestLine call tid), .disconnected]

/-- What a call returns that waits for its response after the reader has ended: the response that it
has got, or that the connection is closed. -/
def lastResult : List Value → Except String Value
  | response :: _ => callResult response
  | [] => .error connectionClosed

/-- The next move of a call after the reader has ended: a call that has not inserted its waiter is
refused, and one that waits for its response returns. -/
def GoesOn (s : ClientShared) : CallLocal → CallLocal → Prop
  | .inserting _ _ _, l' => l' = .ended (.error connectionClosed)
  | .receiving _ channel, l' =>
    ∀ x, s.channels[channel]? = some x → l' = .ended (lastResult x.messages)
  | _, _ => True

/-- No call has to wait after the reader has ended. -/
def CallsReturn (p : ClientPool) : Prop :=
  ∀ i call l failure, p.calls[i]? = some (call, l) →
    (∃ result, l = .ended result) ∨
      ∃ l' p', clientStep p (.calls (.move i failure)) = some p' ∧
        p'.calls[i]? = some (call, l') ∧ GoesOn p.shared l l'

end Uartbus.Interface
