/-
Benchhand.Rpc.Client — LocalRpcClient.call.

A call checks its request, its deadline and its signal, and then waits for the
first of the events that settle it. Each callback of `requestOverIpc` is a
function on the local variables (`Waiting`); the clock and the timer of the
platform are `setTimeout` and `Timer`.
-/
import Benchhand.Daemon.Server

namespace Benchhand.Rpc

open Text Js Contracts

def maxResponseBytes : Nat := 1024 * 1024

/-! ## Requests -/

structure RpcCallRequest where
  requestId : JsString
  method : JsString
  params : JsonTree
  operationId : Option JsString
  deadlineUnixMs : Option Number

/-- A property that an object has when there is a value for it. -/
def fieldOf {α : Type} (name : String) (json : α → JsonTree) (value : Option α) :
    List (String × JsonTree) := (value.map fun a => (name, json a)).toList

/-- `{ ...request, schemaVersion: RPC_SCHEMA_VERSION }`. -/
def RpcCallRequest.wire (request : RpcCallRequest) : JsonTree :=
  objectOf
    ([("requestId", .string request.requestId), ("method", .string request.method),
      ("params", request.params)] ++ fieldOf "operationId" .string request.operationId ++
      fieldOf "deadlineUnixMs" .number request.deadlineUnixMs ++
      [("schemaVersion", .number (.finite .one))])
    (by cases request.operationId <;> cases request.deadlineUnixMs <;> simp [fieldOf])

/-- The bytes that are sent. -/
def RpcCallRequest.payload (request : RpcCallRequest) : Bytes :=
  encodeUtf8 request.wire.tree.text

/-! ## Errors -/

/-- `RpcCallError`. -/
structure RpcCallError where
  code : JsString
  message : JsString
  retryable : Bool
  details : Option Graph

def RpcCallError.local (code : String) (message : JsString) (retryable : Bool) : RpcCallError :=
  ⟨js code, message, retryable, none⟩

/-- What a call rejects with. -/
inductive Rejection where
  | call (e : RpcCallError)
  | type (e : JsError)

/-- What a call ends with. -/
abbrev Settled := Except Rejection Graph

def rejected (code : String) (message : String) (retryable : Bool) : Settled :=
  .error (.call (.local code (js message) retryable))

/-! ## Timers -/

/-- The moment from which the callback of a timer may run. -/
abbrev Timer := Int

/-- `setTimeout(callback, delay)`: a delay below 1 or above 2147483647 is 1. -/
def setTimeout (now delay : Int) : Timer :=
  now + if delay < 1 ∨ 2147483647 < delay then 1 else delay

/-! ## A call that waits -/

/-- The local variables of `requestOverIpc`. -/
structure Waiting where
  requestId : JsString
  timer : Option Timer
  timedOut : Bool
  cancelledByCaller : Bool
  chunks : List Bytes
  bytes : Nat
  /-- The response was destroyed. -/
  destroyed : Bool
  settled : Option Settled

namespace Waiting

/-- `requestOverIpc` up to its first callback. Past 2 ** 53 the difference is
rounded, which the comparison in `setTimeout` does not see. -/
def start (request : RpcRequest) (now : Int) : Waiting where
  requestId := request.requestId
  timer := request.deadlineUnixMs.map fun deadline => setTimeout now (max 0 (deadline - now))
  timedOut := false
  cancelledByCaller := false
  chunks := []
  bytes := 0
  destroyed := false
  settled := none

/-- `settleResolve` and `settleReject`. -/
def settle (w : Waiting) (outcome : Settled) : Waiting :=
  if w.settled.isSome then w else { w with settled := some outcome, timer := none }

/-- The callback of the timer. -/
def onTimeout (w : Waiting) : Waiting := { w with timer := none, timedOut := true }

/-- `onCallerAbort`, as long as it listens. -/
def onCallerAbort (w : Waiting) : Waiting :=
  if w.settled.isSome then w else { w with cancelledByCaller := true }

/-- `response.on('data', ...)`. -/
def onData (w : Waiting) (chunk : Bytes) : Waiting :=
  if maxResponseBytes < w.bytes + chunk.length then
    { w with bytes := w.bytes + chunk.length, destroyed := true }
  else { w with bytes := w.bytes + chunk.length, chunks := w.chunks ++ [chunk] }

/-- What a body settles the call with. -/
def read (engine : Daemon.Engine) (L : Lengths) (requestId : JsString) (body : Bytes) : Settled :=
  match Json.parse (decodeUtf8Lossy body) with
  | none =>
      .error (.call (.local "TRANSPORT_FAILURE" (engine.syntaxMessage (decodeUtf8Lossy body)) true))
  | some decoded =>
      match parseRpcResponse L decoded with
      | .error e => .error (.call (.local "TRANSPORT_FAILURE" e.message true))
      | .ok response =>
          if response.requestId ≠ requestId then
            rejected "TRANSPORT_FAILURE" "RPC response requestId does not match the request" true
          else
            match response.outcome with
            | .error e => .error (.call ⟨e.code, e.message, e.retryable, some e.details⟩)
            | .ok result => .ok result

/-- `response.on('end', ...)`. -/
def onEnd (engine : Daemon.Engine) (L : Lengths) (w : Waiting) : Waiting :=
  w.settle (read engine L w.requestId w.chunks.flatten)

/-- `response.on('error', ...)`. -/
def onResponseError (w : Waiting) (message : JsString) : Waiting :=
  w.settle (.error (.call (.local "TRANSPORT_FAILURE" message true)))

/-- The codes for a daemon that is not there. -/
def unavailableCodes : List JsString :=
  [js "ECONNREFUSED", js "ENOENT", js "EPIPE", js "ECONNRESET"]

/-- `clientRequest.on('error', ...)`. -/
def onRequestError (w : Waiting) (code : Option JsString) (message : JsString) : Waiting :=
  if w.timedOut then w.settle (rejected "TIMEOUT" "RPC deadline exceeded" true)
  else if w.cancelledByCaller then w.settle (rejected "CANCELLED" "RPC call was cancelled" false)
  else if code.any unavailableCodes.contains then
    w.settle (rejected "CORE_UNAVAILABLE" "Benchhand core daemon is unavailable" true)
  else w.settle (.error (.call (.local "TRANSPORT_FAILURE" message true)))

end Waiting

/-! ## A call -/

/-- The checks of `call`: the request for the wire, or what the call rejects
with; `signalAborted` is the state of the signal. -/
def checkCall (L : Lengths) (request : RpcCallRequest) (signalAborted : Bool) (now : Int) :
    Except Rejection RpcRequest :=
  match parseRpcRequest L (Graph.ofTree request.wire.tree) with
  | .error e => .error (.type e)
  | .ok wireRequest =>
      if Daemon.expired wireRequest.deadlineUnixMs now then
        .error (.call (.local "TIMEOUT" (js "RPC deadline exceeded before transport") true))
      else if signalAborted then
        .error (.call (.local "CANCELLED" (js "RPC call was cancelled before transport") false))
      else .ok wireRequest

/-- `error.code === 'TIMEOUT'`. -/
def isTimeout : Settled → Bool
  | .error (.call e) => e.code == js "TIMEOUT"
  | _ => false

end Benchhand.Rpc
