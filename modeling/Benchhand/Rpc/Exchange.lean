/-
Benchhand.Rpc.Exchange — a call of the client that the daemon serves.

An `Exchange` is the clock that both read, the state of the call and the bodies
that the daemon has written. An action lets time pass, runs one callback of the
client or lets the daemon handle the request; one that is not possible changes
nothing. The transport may cut a body anywhere and may fail at any time, but it
ends a body only behind its last byte.
-/
import Benchhand.Process.Runs
import Benchhand.Rpc.Client

namespace Benchhand.Rpc

open Text Js Contracts Daemon

/-- Where a call is. -/
inductive CallState where
  | called
  /-- The checks of `call` have passed. -/
  | checked (wireRequest : RpcRequest)
  /-- A check of `call` has failed. -/
  | refused (rejection : Rejection)
  /-- `requestOverIpc` has sent the request. -/
  | waiting (w : Waiting)

namespace CallState

def isCalled : CallState → Bool
  | .called => true
  | _ => false

/-- The request that is about to be sent. -/
def ready : CallState → Option RpcRequest
  | .checked wireRequest => some wireRequest
  | _ => none

def waits : CallState → Option Waiting
  | .waiting w => some w
  | _ => none

/-- The call has rejected with `TIMEOUT`. -/
def timedOut : CallState → Bool
  | .refused rejection => isTimeout (.error rejection)
  | .waiting w => w.settled.any isTimeout
  | _ => false

end CallState

structure Exchange where
  clock : Int
  call : CallState
  /-- The bodies that the daemon has written. -/
  written : List Bytes

/-- Nothing has happened yet. -/
def Exchange.start (now : Int) : Exchange := ⟨now, .called, []⟩

inductive Action where
  /-- Time passes, in milliseconds. -/
  | tick (elapsed : Nat)
  /-- The checks of `call`; the signal may be aborted already. -/
  | check (signalAborted : Bool)
  /-- `requestOverIpc` up to its first callback. -/
  | send
  /-- The daemon handles what has arrived of the request. -/
  | serve (services : Services) (received : HttpRequest)
  | timeout
  | callerAbort
  | data (chunk : Bytes)
  | «end»
  | responseError (message : JsString)
  | requestError (code : Option JsString) (message : JsString)

/-- What can arrive of the request: if its stream ends, the whole payload. -/
def RpcCallRequest.delivers (request : RpcCallRequest) (received : HttpRequest) : Bool :=
  received.method == js "POST" && received.url == js "/rpc" &&
    match received.ending with
    | .ended => received.chunks.flatten == request.payload
    | _ => true

namespace Waiting

/-- The callback of the timer may run. -/
def isDue (w : Waiting) (now : Int) : Bool := w.timer.any (· ≤ now)

/-- The chunk comes next in a body that was written. -/
def continues (w : Waiting) (written : List Bytes) (chunk : Bytes) : Bool :=
  !w.destroyed && written.any fun body => (w.chunks.flatten ++ chunk).isPrefixOf body

/-- A whole body has arrived. -/
def isComplete (w : Waiting) (written : List Bytes) : Bool :=
  !w.destroyed && written.contains w.chunks.flatten

end Waiting

section
variable (engine : Engine) (L : Lengths) (request : RpcCallRequest)

/-- The state of the call behind its checks. -/
def CallState.check (signalAborted : Bool) (now : Int) : CallState :=
  match checkCall L request signalAborted now with
  | .ok wireRequest => .checked wireRequest
  | .error rejection => .refused rejection

/-- What a callback makes of a call that waits. -/
def Waiting.callback (w : Waiting) (now : Int) (written : List Bytes) : Action → Option Waiting
  | .timeout => if w.isDue now then some w.onTimeout else none
  | .callerAbort => some w.onCallerAbort
  | .data chunk => if w.continues written chunk then some (w.onData chunk) else none
  | .«end» => if w.isComplete written then some (w.onEnd engine L) else none
  | .responseError message => some (w.onResponseError message)
  | .requestError code message => some (w.onRequestError code message)
  | _ => none

/-- One action, if it is possible. -/
def Exchange.step (s : Exchange) : Action → Option Exchange
  | .tick elapsed => some { s with clock := s.clock + elapsed }
  | .check signalAborted =>
      if s.call.isCalled then some { s with call := .check L request signalAborted s.clock } else none
  | .send => s.call.ready.map fun wireRequest =>
      { s with call := .waiting (.start wireRequest s.clock) }
  | .serve services received =>
      if s.call.waits.isSome && request.delivers received then
        some { s with written := s.written ++ replies engine L services s.clock received }
      else none
  | callback => s.call.waits.bind fun w =>
      (w.callback engine L s.clock s.written callback).map fun w' => { s with call := .waiting w' }

/-- The exchange after some actions. -/
def Exchange.run (s : Exchange) (actions : List Action) : Exchange :=
  Process.runFrom (fun s a => (s.step engine L request a).getD s) s actions

end

/-! ## Reports -/

/-- A body says that a request has timed out. -/
def ReportsTimeout (body : Bytes) : Prop :=
  ∃ g e, decodeResponse body = some g ∧ (RpcResponse.ofGraph g).outcome = .error e ∧
    e.code = js "TIMEOUT"

/-- If the client or the daemon has reported a timeout, the clock has reached
the deadline. -/
structure Exchange.Punctual (deadline : Int) (s : Exchange) : Prop where
  client : s.call.timedOut = true → deadline ≤ s.clock
  daemon : ∀ body ∈ s.written, ReportsTimeout body → deadline ≤ s.clock

end Benchhand.Rpc
