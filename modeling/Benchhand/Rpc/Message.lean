/-
Benchhand.Rpc.Message — requests and responses of the local RPC.

Both are JSON objects that are checked against a schema after they are read
(`parseRpcRequest`, `parseRpcResponse`). A response is built from a result or
from an error (`successTree`, `failureTree`) and sent as the UTF-8 of its JSON
text; `decodeResponse` is the way back.
-/
import Benchhand.Contracts.JsonValueTheorems
import Benchhand.Contracts.WorkspaceRecord
import Benchhand.Filesystem.Error
import Benchhand.Text.Buffer

namespace Benchhand.Rpc

open Text Js Contracts

/-! ## JSON values of a program -/

/-- A JSON value: no object in it has a key twice. -/
structure JsonTree where
  tree : Tree
  nodup : tree.KeysNodup
  deriving DecidableEq

namespace JsonTree

def null : JsonTree := ⟨.null, trivial⟩

def string (s : JsString) : JsonTree := ⟨.string s, trivial⟩

def boolean (b : Bool) : JsonTree := ⟨.boolean b, trivial⟩

def number (n : Number) : JsonTree := ⟨.number n, trivial⟩

def nat (n : Nat) : JsonTree := number (.ofNat n)

/-- `value ?? null`. -/
def orNull {α : Type} (json : α → JsonTree) (value : Option α) : JsonTree := value.elim null json

/-- The elements of an array. -/
def itemsOf : List JsonTree → Node .items
  | [] => .noItems
  | x :: xs => .item x.tree (itemsOf xs)

theorem itemsOf_nodup : ∀ xs : List JsonTree, (itemsOf xs).KeysNodup
  | [] => trivial
  | x :: xs => ⟨x.nodup, itemsOf_nodup xs⟩

def array (xs : List JsonTree) : JsonTree := ⟨.array (itemsOf xs), itemsOf_nodup xs⟩

/-- The properties of an object. -/
def propsOf : List (JsString × JsonTree) → Node .props
  | [] => .noProps
  | (key, x) :: fields => .prop key x.tree (propsOf fields)

theorem keys_propsOf : ∀ fields : List (JsString × JsonTree),
    (propsOf fields).keys = fields.map Prod.fst
  | [] => by rw [propsOf, Node.keys, List.map_nil]
  | (key, _) :: fields => by rw [propsOf, Node.keys, keys_propsOf fields, List.map_cons]

theorem propsOf_nodup : ∀ fields : List (JsString × JsonTree), (propsOf fields).KeysNodup
  | [] => trivial
  | (_, x) :: fields => ⟨x.nodup, propsOf_nodup fields⟩

/-- An object with these properties. -/
def object (fields : List (JsString × JsonTree)) (h : (fields.map Prod.fst).Nodup) : JsonTree :=
  ⟨.object (propsOf fields), keys_propsOf fields ▸ h, propsOf_nodup fields⟩

end JsonTree

/-! ## Checks of properties -/

/-- The own properties of a plain object. -/
def entriesOf (h : Heap) : Value → Option (List (JsString × Value))
  | .object r =>
      match h.objs[r]? with
      | some (.plain _ props) => some props.entries
      | _ => none
  | _ => none

/-- A property that must be there. -/
def required (entries : List (JsString × Value)) (name : String) (check : Value → Bool) : Bool :=
  (entries.lookup (js name)).any check

/-- A property that may be there. -/
def «optional» (entries : List (JsString × Value)) (name : String) (check : Value → Bool) : Bool :=
  (entries.lookup (js name)).all check

/-- `additionalProperties: false`. -/
def only (entries : List (JsString × Value)) (names : List String) : Bool :=
  entries.all fun e => names.any fun name => e.1 == js name

/-- `Type.String({ minLength: 1, maxLength })`. -/
def checkString (L : Lengths) (maxLength : Option Nat) : Value → Bool
  | .string s => 1 ≤ L.length s && maxLength.all fun n => L.length s ≤ n
  | _ => false

/-- `Type.Literal(RPC_SCHEMA_VERSION)`. -/
def isSchemaVersion : Value → Bool
  | .number n => n.strictEquals (.finite .one)
  | _ => false

def isBoolean : Value → Bool
  | .boolean _ => true
  | _ => false

/-- `Type.Integer({ minimum: 0 })`. -/
def isNaturalNumber : Value → Bool
  | .number n => (Filesystem.integer? n).any fun i => 0 ≤ i
  | _ => false

/-- The text of a string; empty for anything else. -/
def stringOf : Value → JsString
  | .string s => s
  | _ => []

/-! ## Requests -/

structure RpcRequest where
  requestId : JsString
  method : JsString
  params : Graph
  operationId : Option JsString
  deadlineUnixMs : Option Int

/-- `Value.Check(RpcRequestSchema, value)`. -/
def RpcRequestSchema.check (L : Lengths) (g : Graph) : Bool :=
  match entriesOf g.heap g.root with
  | none => false
  | some entries =>
      required entries "schemaVersion" isSchemaVersion &&
      required entries "requestId" (checkString L (some 128)) &&
      required entries "method" (checkString L (some 128)) &&
      required entries "params" (fun _ => true) &&
      «optional» entries "operationId" (checkString L (some 256)) &&
      «optional» entries "deadlineUnixMs" isNaturalNumber &&
      only entries
        ["schemaVersion", "requestId", "method", "params", "operationId", "deadlineUnixMs"]

/-- The fields of a request that was accepted. -/
def RpcRequest.ofGraph (g : Graph) : RpcRequest where
  requestId := stringOf (g.heap.property g.root (js "requestId"))
  method := stringOf (g.heap.property g.root (js "method"))
  params := property g "params"
  operationId :=
    match g.heap.property g.root (js "operationId") with
    | .string s => some s
    | _ => none
  deadlineUnixMs :=
    match g.heap.property g.root (js "deadlineUnixMs") with
    | .number n => Filesystem.integer? n
    | _ => none

/-- `parseRpcRequest(value)`. -/
def parseRpcRequest (L : Lengths) (value : Graph) : Except JsError RpcRequest :=
  (parseSchema (RpcRequestSchema.check L) value "rpc request").map RpcRequest.ofGraph

/-! ## Responses -/

structure RpcError where
  code : JsString
  message : JsString
  retryable : Bool
  details : Option JsonTree

/-- The properties of an error object. -/
def RpcError.fields (e : RpcError) : Node .props :=
  .prop (js "code") (.string e.code) (.prop (js "message") (.string e.message)
    (.prop (js "retryable") (.boolean e.retryable)
      (match e.details with
        | none => .noProps
        | some details => .prop (js "details") details.tree .noProps)))

/-- `{ schemaVersion, requestId, ok, ... }`. -/
def envelopeTree (requestId : JsString) (ok : Bool) (name : String) (payload : Tree) : Tree :=
  .object (.prop (js "schemaVersion") (.number (.finite .one))
    (.prop (js "requestId") (.string requestId) (.prop (js "ok") (.boolean ok)
      (.prop (js name) payload .noProps))))

/-- The object of `writeRpcSuccess`. -/
def successTree (requestId : JsString) (result : JsonTree) : Tree :=
  envelopeTree requestId true "result" result.tree

/-- The object of `writeRpcError`. -/
def failureTree (requestId : JsString) (error : RpcError) : Tree :=
  envelopeTree requestId false "error" (.object error.fields)

/-- `Value.Check(RpcErrorSchema, value)`. -/
def RpcErrorSchema.check (L : Lengths) (h : Heap) (v : Value) : Bool :=
  match entriesOf h v with
  | none => false
  | some entries =>
      required entries "code" (checkString L (some 128)) &&
      required entries "message" (checkString L none) &&
      required entries "retryable" isBoolean &&
      only entries ["code", "message", "retryable", "details"]

/-- `Value.Check(RpcResponseSchema, value)`: a success or a failure. -/
def RpcResponseSchema.check (L : Lengths) (g : Graph) : Bool :=
  match entriesOf g.heap g.root with
  | none => false
  | some entries =>
      required entries "schemaVersion" isSchemaVersion &&
      required entries "requestId" (checkString L (some 128)) &&
      ((required entries "ok" (· == .boolean true) && required entries "result" (fun _ => true) &&
          only entries ["schemaVersion", "requestId", "ok", "result"]) ||
        (required entries "ok" (· == .boolean false) &&
          required entries "error" (RpcErrorSchema.check L g.heap) &&
          only entries ["schemaVersion", "requestId", "ok", "error"]))

/-- The error of a failure, as the client reads it. -/
structure WireError where
  code : JsString
  message : JsString
  retryable : Bool
  details : Graph

structure RpcResponse where
  requestId : JsString
  outcome : Except WireError Graph

/-- The fields of an error that was accepted. -/
def WireError.ofGraph (g : Graph) : WireError where
  code := stringOf (g.heap.property g.root (js "code"))
  message := stringOf (g.heap.property g.root (js "message"))
  retryable := g.heap.property g.root (js "retryable") == .boolean true
  details := property g "details"

/-- The fields of a response that was accepted. -/
def RpcResponse.ofGraph (g : Graph) : RpcResponse where
  requestId := stringOf (g.heap.property g.root (js "requestId"))
  outcome :=
    if g.heap.property g.root (js "ok") = .boolean true then .ok (property g "result")
    else .error (.ofGraph (property g "error"))

/-- `parseRpcResponse(value)`. -/
def parseRpcResponse (L : Lengths) (value : Graph) : Except JsError RpcResponse :=
  (parseSchema (RpcResponseSchema.check L) value "rpc response").map RpcResponse.ofGraph

/-- `JSON.parse(body.toString('utf8'))`. -/
def decodeResponse (body : Bytes) : Option Graph := Json.parse (decodeUtf8Lossy body)

end Benchhand.Rpc
