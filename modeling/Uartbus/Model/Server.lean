import Uartbus.Model.Base64
import Uartbus.Model.Endpoint
import Uartbus.Model.Json

/-!
# The RPC server: one client connection

A client has a handler thread, which reads its requests and answers them, and from the first
`getNextPacket` on a pump thread, which answers those (rpc/server.rs).  Both call the endpoint,
whose other calls run at the same time: the pool of `endpointThreads` is a part of the state of the
connection.

A move of the handler is one move of a call of the endpoint, one write of a line, or one step that
only the handler and the pump see.  The environment chooses what is read, which operations fail,
and which other calls of the endpoint are next.  No other thread knows the session of the client.
-/

set_option autoImplicit false

namespace Uartbus.Model

open Lib

/-! ## Responses -/

/-- SOURCE: rpc/server.rs:18 -/
def serverNamespace : String := "uartbus"

/-- SOURCE: rpc/server.rs:30-35 -/
def withTrace (response : List (String × Value)) : Option String → Value
  | some trace => .object (insertField "t" (.string trace) response)
  | none => .object response

/-- SOURCE: rpc/server.rs:37-41 -/
def resultResponse (trace : Option String) (result : Value) : Value :=
  withTrace (insertField "r" result []) trace

/-- SOURCE: rpc/server.rs:43-54 -/
def errorResponse (trace : Option String) (kind message : String) : Value :=
  let error := insertField "detail" (.string (kind ++ ": " ++ message))
    (insertField "message" (.string message) (insertField "type" (.string kind) []))
  withTrace (insertField "e" (.object error) []) trace

/-- SOURCE: rpc/server.rs:56-62 -/
def traceOf (request : Value) : Option String :=
  match request.get "t" with
  | none | some .null => none
  | some (.string s) => some s
  | some other => some other.render

/-- SOURCE: rpc/server.rs:64-69 -/
def stringParam (params : List Value) (index : ℕ) : Except String String :=
  match params[index]?.bind Value.asStr with
  | some s => .ok s
  | none => .error "wrong number of arguments"

/-- The result of a function, or the type and the message of its error.
SOURCE: rpc/server.rs:200-203 -/
def responseTo (request : Value) : Except (String × String) Value → Value
  | .ok value => resultResponse (traceOf request) value
  | .error (kind, message) => errorResponse (traceOf request) kind message

/-- The answer of the pump.
SOURCE: rpc/server.rs:102-107 -/
def nextPacketResponse (trace : Option String) : Except String Bytes → Value
  | .ok packet => resultResponse trace (.string (Base64.encode packet))
  | .error text => errorResponse trace "EOFException" text

/-! ## What a request asks for -/

/-- What a function does with the session of the client. -/
inductive SessionUse where
  | init
  | getAttribute (key : String)
  | setAttribute (key value : String)
  | getNextPacket
  deriving DecidableEq, Repr

/-- What `handle` does for a request. -/
inductive RequestAction where
  | answer (result : Except (String × String) Value)
  | useSession (use : SessionUse)
  | sendPacket (packet : Bytes)
  /-- `close`: the client receives nothing any more. -/
  | close

/-- SOURCE: rpc/endpoint.rs:101-108 -/
def listAttributes : Value :=
  .object [(attrLoopbackSendPackets, .string
    ("The call of `getNextPacket` functions returns also " ++
    "the you sent with `sendPacket`. Used to implement full network sniffing"))]

def requestNamespace (request : Value) : Option String := (request.get "N").bind Value.asStr

def requestFunction (request : Value) : String := ((request.get "f").bind Value.asStr).getD ""

def requestParams (request : Value) : List Value := ((request.get "p").bind Value.asArray).getD []

/-- SOURCE: rpc/server.rs:152-160 -/
def sendPacketAction (params : List Value) : RequestAction :=
  match stringParam params 0 with
  | .error text => .answer (.error ("IllegalArgumentException", text))
  | .ok text =>
    match Base64.decode text with
    | .error text => .answer (.error ("IllegalArgumentException", text))
    | .ok packet => .sendPacket packet

/-- SOURCE: rpc/server.rs:164-171 -/
def getAttributeAction (params : List Value) : RequestAction :=
  match stringParam params 0 with
  | .error text => .answer (.error ("IllegalArgumentException", text))
  | .ok key => .useSession (.getAttribute key)

/-- SOURCE: rpc/server.rs:173-182 -/
def setAttributeAction (params : List Value) : RequestAction :=
  match stringParam params 0 with
  | .error text => .answer (.error ("IllegalArgumentException", text))
  | .ok key =>
    match stringParam params 1 with
    | .error text => .answer (.error ("IllegalArgumentException", text))
    | .ok value => .useSession (.setAttribute key value)

/-- SOURCE: rpc/server.rs:124-198 -/
def requestAction (request : Value) : RequestAction :=
  if requestNamespace request ≠ some serverNamespace then
    .answer (.error ("RuntimeException", "Unknown RPC namespace: " ++
      (requestNamespace request).getD "null" ++ ". The only namespace of this server is `" ++
      serverNamespace ++ "`"))
  else
    match requestFunction request with
    | "init" => .useSession .init
    | "sendPacket" => sendPacketAction (requestParams request)
    | "listAttributes" => .answer (.ok listAttributes)
    | "getAttribute" => getAttributeAction (requestParams request)
    | "setAttribute" => setAttributeAction (requestParams request)
    | "getNextPacket" => .useSession .getNextPacket
    | "close" => .close
    | other => .answer (.error ("RuntimeException", "Method not found: " ++ other))

/-! ## The threads of a connection -/

/-- What the handler does next. -/
inductive HandlerLocal where
  /-- It waits for the next line. -/
  | reading
  | handling (request : Value)
  /-- A call of the endpoint is running for the request. -/
  | calling (request : Value) (call : ℕ)
  | writing (request response : Value)
  /-- The loop has ended; the session is removed, -/
  | leaving
  | removing (call : ℕ)
  | ended

/-- What the pump does next. -/
inductive PumpLocal where
  /-- It waits for the next trace of the channel, -/
  | waiting
  /-- and for a packet, -/
  | taking (trace : Option String)
  /-- and writes the response. -/
  | writing (response : Value)
  | stopped

inductive ServerEvent where
  /-- The handler has read a request. -/
  | received (request : Value)
  /-- The request is left to the pump. -/
  | queued (request : Value)
  /-- The handler has written the response. -/
  | answered (request response : Value)
  | answerFailed (request response : Value)
  /-- The pump has written the response. -/
  | pumped (response : Value)
  | pumpFailed (response : Value)

/-- SOURCE: rpc/server.rs:71-78 -/
structure ClientConnection where
  /-- The calls of the endpoint, of this client and of everything else. -/
  pool : Pool EndpointOp EndpointShared EndpointLocal EndpointEvent
  session : Option ℕ
  /-- The traces in the channel; none before the pump is started. -/
  nextPacketRequests : Option (List (Option String))
  handler : HandlerLocal
  pump : PumpLocal
  log : List ServerEvent

/-- SOURCE: rpc/server.rs:214-219 -/
def ClientConnection.start (s : EndpointShared) : ClientConnection where
  pool := Pool.start s
  session := none
  nextPacketRequests := none
  handler := .reading
  pump := .waiting
  log := []

def HandlerLocal.hasEnded : HandlerLocal → Bool
  | .ended => true
  | _ => false

def PumpLocal.hasStopped : PumpLocal → Bool
  | .stopped => true
  | _ => false

/-- The call of the endpoint that the handler is in. -/
def HandlerLocal.call : HandlerLocal → Option ℕ
  | .calling _ call | .removing call => some call
  | _ => none

/-- The session that a call of the endpoint is given. -/
def EndpointOp.session : EndpointOp → Option ℕ
  | .removeSession id | .takeCall id | .closeSession id | .setAttribute id _ _ => some id
  | _ => none

namespace ClientConnection

variable (c : ClientConnection)

/-- The response is written next. -/
def respond (request : Value) (result : Except (String × String) Value) : ClientConnection :=
  { c with handler := .writing request (responseTo request result) }

/-- The handler calls the endpoint for a request. -/
def enterCall (op : EndpointOp) (handler : ℕ → HandlerLocal) : Option ClientConnection :=
  (endpointThreads.step c.pool (.enter op)).map fun pool =>
    { c with pool := pool, handler := handler c.pool.calls.length }

/-- SOURCE: rpc/server.rs:92-121 -/
def queueNextPacket (failure : Option String) (request : Value) : ClientConnection :=
  match c.nextPacketRequests, failure with
  | none, some text => c.respond request (.error ("EOFException", text))
  | none, none =>
    { c with
        nextPacketRequests := some [traceOf request]
        handler := .reading
        log := c.log ++ [.queued request] }
  | some traces, _ =>
    if c.pump.hasStopped then c.respond request (.error ("EOFException", "packet pump stopped"))
    else
      { c with
          nextPacketRequests := some (traces ++ [traceOf request])
          handler := .reading
          log := c.log ++ [.queued request] }

/-- SOURCE: rpc/server.rs:147-150, 164-187 -/
def useSession (failure : Option String) (request : Value) (id : ℕ) :
    SessionUse → Option ClientConnection
  | .init => some (c.respond request (.ok .null))
  | .getAttribute key =>
    c.pool.shared.created[id]?.map fun x =>
      c.respond request (.ok ((x.getAttribute key).elim .null .string))
  | .setAttribute key value => c.enterCall (.setAttribute id key value) (.calling request)
  | .getNextPacket => some (c.queueNextPacket failure request)

/-- The first step for a request.  It is taken again when a session had to be created first.
SOURCE: rpc/server.rs:83-90, 124-198 -/
def handle (failure : Option String) (request : Value) : Option ClientConnection :=
  match requestAction request, c.session with
  | .answer result, _ => some (c.respond request result)
  | .sendPacket packet, _ => c.enterCall (.sendPacket packet) (.calling request)
  | .close, none => some (c.respond request (.ok .null))
  | .close, some id => c.enterCall (.closeSession id) (.calling request)
  | .useSession _, none => c.enterCall .newSession (.calling request)
  | .useSession use, some id => c.useSession failure request id use

/-- What a call of the endpoint has returned, by its last event. -/
def callResult (failure : Option String) (events : List EndpointEvent) :
    Except (String × String) Value :=
  match events.getLast? with
  | some (.sendFailed _) => .error ("IOException", failure.getD "")
  | some .refused => .error ("EOFException", endOfReceive)
  | some (.notSet _ text) => .error ("RuntimeException", text)
  | _ => .ok .null

/-- The handler goes on when its call has returned. -/
def afterMove (failure : Option String) (request : Value) (call : ℕ) : ClientConnection :=
  match c.pool.calls[call]? with
  | some (_, .opened id) => { c with session := some id, handler := .handling request }
  | some (_, .ended) => c.respond request (callResult failure (callEvents call c.pool.log))
  | _ => c

def afterRemove (call : ℕ) : ClientConnection :=
  match c.pool.calls[call]? with
  | some (_, .ended) => { c with handler := .ended }
  | _ => c

/-- One move of the handler; the failure says that the connector, the start of the pump or the write
fails, if the move is such a one.
SOURCE: rpc/server.rs:207-243 -/
def handlerMove (failure : Option String) : Option ClientConnection :=
  match c.handler with
  | .reading | .ended => none
  | .handling request => c.handle failure request
  | .calling request call =>
    (endpointThreads.step c.pool (.move call failure.isNone)).map fun pool =>
      { c with pool := pool }.afterMove failure request call
  | .writing request response =>
    match failure with
    | none =>
      some { c with handler := .reading, log := c.log ++ [.answered request response] }
    | some _ =>
      some { c with handler := .leaving, log := c.log ++ [.answerFailed request response] }
  | .leaving =>
    match c.session with
    | none => some { c with handler := .ended }
    | some id => c.enterCall (.removeSession id) .removing
  | .removing call =>
    (endpointThreads.step c.pool (.move call true)).map fun pool =>
      { c with pool := pool }.afterRemove call

/-- A line is read; none is the end of the stream, or a line that is not JSON.
SOURCE: rpc/server.rs:221-226 -/
def readLine (line : Option Value) : Option ClientConnection :=
  match c.handler, line with
  | .reading, some (.object fields) =>
    some { c with
      handler := .handling (.object fields)
      log := c.log ++ [.received (.object fields)] }
  | .reading, _ => some { c with handler := .leaving }
  | _, _ => none

/-- What `take` has returned. -/
def takeResult : EndpointEvent → Except String Bytes
  | .took _ packet => .ok packet
  | _ => .error endOfReceive

/-- The call of `take`: it begins when it does not have to wait any more. -/
def take (id : ℕ) (trace : Option String) : Option ClientConnection :=
  match run endpointThreads.step c.pool [.enter (.takeCall id), .move c.pool.calls.length true] with
  | none => none
  | some pool =>
    pool.log.getLast?.map fun e =>
      { c with pool := pool, pump := .writing (nextPacketResponse trace (takeResult e.2)) }

/-- One move of the pump.  It has the session that the handler had when it was started.
SOURCE: rpc/server.rs:100-112 -/
def pumpMove (failed : Bool) : Option ClientConnection :=
  match c.pump with
  | .waiting =>
    match c.nextPacketRequests with
    | some (trace :: traces) =>
      some { c with nextPacketRequests := some traces, pump := .taking trace }
    | some [] => if c.handler.hasEnded then some { c with pump := .stopped } else none
    | none => none
  | .taking trace => c.session.bind fun id => c.take id trace
  | .writing response =>
    if failed then some { c with pump := .stopped, log := c.log ++ [.pumpFailed response] }
    else some { c with pump := .waiting, log := c.log ++ [.pumped response] }
  | .stopped => none

/-- A turn that is not of this client: it is not a move of the handler's call, and a call that
begins is given a session that has been created, and not the one of this client. -/
def foreign : Turn EndpointOp Bool → Bool
  | .enter op =>
    op.session.all fun id =>
      decide (id < c.pool.shared.created.length) && decide (c.session ≠ some id)
  | .move i _ => decide (c.handler.call ≠ some i)

end ClientConnection

/-- Who is next. -/
inductive ServerTurn where
  | endpoint (turn : Turn EndpointOp Bool)
  | line (line : Option Value)
  | handler (failure : Option String)
  | pump (failed : Bool)

def serverStep (c : ClientConnection) : ServerTurn → Option ClientConnection
  | .endpoint turn =>
    if c.foreign turn then
      (endpointThreads.step c.pool turn).map fun pool => { c with pool := pool }
    else none
  | .line line => c.readLine line
  | .handler failure => c.handlerMove failure
  | .pump failed => c.pumpMove failed

end Uartbus.Model
