/-
Benchhand.Daemon.Server — handleHttpRequest.

The handler reads the body, parses it, dispatches it and writes a response. Its
local variable `requestId` and the response are the state of `Handler`; an
exception goes to the `catch`, which writes an error. What a connection does
that the handler has destroyed is not in this module.
-/
import Benchhand.Daemon.Dispatch

namespace Benchhand.Daemon

open Text Js Contracts Rpc

def maxRequestBytes : Nat := 1024 * 1024

/-! ## Requests and responses -/

/-- How the stream of a request ends. -/
inductive StreamEnd where
  | ended
  | aborted
  | failed (message : JsString)

structure HttpRequest where
  method : JsString
  url : JsString
  chunks : List Bytes
  ending : StreamEnd

/-- The response, with the bodies that were written to it. -/
structure ServerResponse where
  writableEnded : Bool
  destroyed : Bool
  bodies : List Bytes

/-- The response of a connection that is open. -/
def ServerResponse.fresh : ServerResponse := ⟨false, false, []⟩

/-- What a SyntaxError of `JSON.parse` says of a text. -/
structure Engine where
  syntaxMessage : JsString → JsString
  ne_nil : ∀ text, syntaxMessage text ≠ []

structure HandlerState where
  requestId : JsString
  response : ServerResponse

abbrev Handler := ExceptT Thrown (StateM HandlerState)

/-- An expression that may throw. -/
def ofDispatch {α : Type} (r : Dispatch α) : Handler α := ExceptT.mk (pure r)

/-! ## Writing -/

/-- `writeJson(response, value)`. -/
def writeJson (value : Tree) : Handler PUnit := do
  let state ← get
  if state.response.writableEnded || state.response.destroyed then return
  else
    match Json.stringify (Graph.ofTree value) with
    | .ok (some text) =>
        set { state with response :=
          { state.response with
            writableEnded := true, bodies := state.response.bodies ++ [encodeUtf8 text] } }
    | .ok none => throw (.error (js "The first argument must be of type string"))
    | .error .circular => throw (.error (js "Converting circular structure to JSON"))
    | .error .bigint => throw (.error (js "Do not know how to serialize a BigInt"))

/-- `writeRpcSuccess(response, requestId, result)`. -/
def writeRpcSuccess (requestId : JsString) (result : JsonTree) : Handler PUnit :=
  writeJson (successTree requestId result)

/-- `writeRpcError(response, requestId, error)`. -/
def writeRpcError (requestId : JsString) (error : RpcError) : Handler PUnit :=
  writeJson (failureTree requestId error)

/-! ## Handling -/

/-- The `data` events of `readRequestBody`; `bytes` were read before. -/
def collectChunks : Nat → List Bytes → Dispatch Bytes
  | _, [] => .ok []
  | bytes, chunk :: rest =>
      if maxRequestBytes < bytes + chunk.length then
        .error (.error (js "RPC request exceeds maximum size"))
      else (collectChunks (bytes + chunk.length) rest).map (chunk ++ ·)

/-- `readRequestBody(request)`. -/
def readRequestBody (request : HttpRequest) : Dispatch JsString := do
  let bytes ← collectChunks 0 request.chunks
  match request.ending with
  | .ended => return decodeUtf8Lossy bytes
  | .aborted => .error (.error (js "RPC request was aborted"))
  | .failed message => .error (.error message)

/-- The request id of a body that has one. -/
def requestIdOf (decoded : Graph) : Option JsString :=
  match decoded.heap.property decoded.root (js "requestId") with
  | .string s => if s = [] then none else some s
  | _ => none

/-- `readRequestedSchemaVersion(value)`. -/
def readRequestedSchemaVersion (value : Graph) : Option Number :=
  match value.heap.property value.root (js "schemaVersion") with
  | .number n => if (Filesystem.integer? n).isSome then some n else none
  | _ => none

/-- A requested version that is not supported. -/
def unsupportedVersionOf (value : Graph) : Option Number :=
  (readRequestedSchemaVersion value).filter fun n => !n.strictEquals (.finite .one)

/-- The error for another schema version. -/
def unsupportedSchemaVersion (requested : Number) : RpcError where
  code := js "UNSUPPORTED_SCHEMA_VERSION"
  message := js "RPC schema version " ++ requested.text ++ js " is not supported"
  retryable := false
  details := some (objectOf
    [("requested", .number requested), ("supported", .array [.nat 1])] (by simp))

/-- The error behind a deadline. -/
def deadlineExceeded : RpcError where
  code := js "TIMEOUT"
  message := js "RPC deadline exceeded before dispatch"
  retryable := true
  details := none

/-- `deadlineUnixMs !== undefined && deadlineUnixMs <= now`. -/
def expired (deadlineUnixMs : Option Int) (now : Int) : Bool := deadlineUnixMs.any (· ≤ now)

section
variable (engine : Engine) (L : Lengths) (services : Services) (now : Int)

/-- `JSON.parse(body)`. -/
def parseBody (body : JsString) : Dispatch Graph :=
  match Json.parse body with
  | some decoded => .ok decoded
  | none => .error (.error (engine.syntaxMessage body))

/-- The body of the `try`, from the accepted request on; `now` is the value of
`Date.now()`. -/
def answerRequest (rpcRequest : RpcRequest) : Handler PUnit := do
  modify fun state => { state with requestId := rpcRequest.requestId }
  if expired rpcRequest.deadlineUnixMs now then
    writeRpcError rpcRequest.requestId deadlineExceeded
  else do
    let result ← ofDispatch (dispatchRpc services rpcRequest)
    writeRpcSuccess rpcRequest.requestId result

/-- The body of the `try`, from the parsed body on. -/
def answerDecoded (decoded : Graph) : Handler PUnit := do
  modify fun state => { state with requestId := (requestIdOf decoded).getD state.requestId }
  let state ← get
  match unsupportedVersionOf decoded with
  | some requested => writeRpcError state.requestId (unsupportedSchemaVersion requested)
  | none => do
      let rpcRequest ← ofDispatch (ofContracts (parseRpcRequest L decoded))
      answerRequest services now rpcRequest

/-- The body of the `try`. -/
def handleBody (request : HttpRequest) : Handler PUnit := do
  let body ← ofDispatch (readRequestBody request)
  let decoded ← ofDispatch (parseBody engine body)
  answerDecoded L services now decoded

/-- The error that the `catch` writes. -/
def Thrown.rpcError : Thrown → RpcError
  | .dispatch e => e
  | .error message => ⟨js "INVALID_REQUEST", message, false, none⟩
  | .other => ⟨js "INVALID_REQUEST", js "Invalid RPC request", false, none⟩

/-- `handleHttpRequest(request, response, context)`. -/
def handleHttpRequest (request : HttpRequest) : Handler PUnit :=
  if request.method ≠ js "POST" ∨ request.url ≠ js "/rpc" then
    writeRpcError (js "unparsed")
      ⟨js "METHOD_NOT_FOUND", js "Only POST /rpc is supported", false, none⟩
  else
    tryCatch (handleBody engine L services now request) fun error => do
      let state ← get
      writeRpcError state.requestId error.rpcError

/-- The bodies that the handler writes on an open connection. -/
def replies (request : HttpRequest) : List Bytes :=
  ((handleHttpRequest engine L services now request).run.run
    ⟨js "unparsed", .fresh⟩).2.response.bodies

end

end Benchhand.Daemon
