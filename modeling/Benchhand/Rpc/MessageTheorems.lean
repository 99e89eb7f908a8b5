/-
Benchhand.Rpc.MessageTheorems — which responses the client accepts.

A response comes back with the properties it was written with (`reads_envelope`).
It is accepted when the lengths of the strings in it are those of the schema
(`accepted_success`, `accepted_failure`); nothing about its result or the
details of its error matters.
-/
import Benchhand.Rpc.Message

namespace Benchhand.Rpc

open Text Js Contracts

/-! ## Reading an envelope -/

theorem entriesOf_of_denotes {h : Heap} {v : Value} {props : Node .props}
    (hd : Denotes h (k := .value) v (.object props)) :
    ∃ entries, entriesOf h v = some entries ∧ Denotes h (k := .props) entries props := by
  obtain ⟨r, proto, ps, rfl, hlookup, -, hps⟩ := hd
  exact ⟨ps.entries, by simp [entriesOf, hlookup], hps⟩

theorem property_of_entries {h : Heap} {v : Value} {entries : List (JsString × Value)}
    (hentries : entriesOf h v = some entries) (key : JsString) :
    h.property v key = (entries.lookup key).getD .undefined := by
  unfold entriesOf at hentries
  unfold Heap.property
  cases v with
  | object r =>
      simp only at hentries ⊢
      cases hobj : h.objs[r]? with
      | none =>
          rw [hobj] at hentries
          cases hentries
      | some obj =>
          rw [hobj] at hentries
          cases obj with
          | plain proto props =>
              exact congrArg (fun entries => (entries.lookup key).getD .undefined)
                (Option.some.inj hentries)
          | _ => cases hentries
  | _ => cases hentries

/-- The graph of an envelope that was read. -/
structure ReadsEnvelope (g : Graph) (requestId : JsString) (ok : Bool) (name : String)
    (payload : Tree) (v : Value) : Prop where
  json : Graph.isJsonValue g = true
  entries : entriesOf g.heap g.root = some
    [(js "schemaVersion", .number (.finite .one)), (js "requestId", .string requestId),
      (js "ok", .boolean ok), (js name, v)]
  payload : Denotes g.heap (k := .value) v payload

theorem envelopeTree_wire (requestId : JsString) (ok : Bool) (name : String) (payload : Tree) :
    (envelopeTree requestId ok name payload).wire =
      envelopeTree requestId ok name payload.wire := by
  have hone : Double.one.isZero = false := by decide
  simp [envelopeTree, Node.wire, hone]

theorem envelopeTree_nodup {requestId : JsString} {ok : Bool} {name : String} {payload : Tree}
    (hname : name = "result" ∨ name = "error") (hpayload : payload.KeysNodup) :
    (envelopeTree requestId ok name payload).KeysNodup := by
  have hkeys : [js "schemaVersion", js "requestId", js "ok", js name].Nodup := by
    obtain rfl | rfl := hname <;> decide
  refine ⟨?_, trivial, trivial, trivial, hpayload, trivial⟩
  simpa only [Node.keys] using hkeys

/-- The text of an envelope is read as the envelope. -/
theorem reads_envelope (requestId : JsString) (ok : Bool) {name : String} {payload : Tree}
    (hname : name = "result" ∨ name = "error") (hpayload : payload.KeysNodup) :
    ∃ g v, decodeResponse (encodeUtf8 (envelopeTree requestId ok name payload).text) = some g ∧
      ReadsEnvelope g requestId ok name payload.wire v := by
  have henvelope : (envelopeTree requestId ok name payload).KeysNodup :=
    envelopeTree_nodup hname hpayload
  have hnodup := keysNodup_wire henvelope
  have hdenotes := Graph.ofTree_denotes hnodup
  have hdecode : decodeResponse (encodeUtf8 (envelopeTree requestId ok name payload).text) =
      some (Graph.ofTree (envelopeTree requestId ok name payload).wire) := by
    rw [decodeResponse, decodeUtf8Lossy_encodeUtf8 (wellFormed_text _), Json.parse, parseTree_text]
    rfl
  have hjson := (isJsonValue_iff _).mpr ⟨_, hdenotes, allFinite_wire _⟩
  rw [envelopeTree_wire] at hdecode hdenotes hjson
  obtain ⟨entries, hentries, hprops⟩ := entriesOf_of_denotes hdenotes
  obtain ⟨_, _, rfl, rfl, _, _, rfl, rfl, _, _, rfl, rfl, v, _, rfl, hv, rfl⟩ := hprops
  exact ⟨_, v, hdecode, hjson, hentries, hv⟩

/-! ## Acceptance -/

/-- `Type.String({ minLength: 1, maxLength: 128 })`. -/
def ShortString (L : Lengths) (s : JsString) : Prop := 1 ≤ L.length s ∧ L.length s ≤ 128

theorem checkString_short {L : Lengths} {s : JsString} :
    checkString L (some 128) (.string s) = true ↔ ShortString L s := by
  simp [checkString, ShortString]

/-- The client accepts the body as a response, with this request id. -/
def AcceptedAs (L : Lengths) (body : Bytes) (requestId : JsString) : Prop :=
  ∃ g response, decodeResponse body = some g ∧ parseRpcResponse L g = .ok response ∧
    response.requestId = requestId

theorem parseRpcResponse_ok_iff {L : Lengths} {g : Graph} (hjson : Graph.isJsonValue g = true)
    {response : RpcResponse} : parseRpcResponse L g = .ok response ↔
      RpcResponseSchema.check L g = true ∧ response = .ofGraph g := by
  unfold parseRpcResponse parseSchema
  rw [hjson]
  cases RpcResponseSchema.check L g <;> simp [Except.map, eq_comm]

section
variable {L : Lengths} {g : Graph} {requestId : JsString} {ok : Bool} {name : String}
  {payload : Tree} {v : Value} (h : ReadsEnvelope g requestId ok name payload v)
include h

theorem ReadsEnvelope.requestId_eq : (RpcResponse.ofGraph g).requestId = requestId := by
  change stringOf (g.heap.property g.root (js "requestId")) = requestId
  rw [property_of_entries h.entries]
  rfl

end

/-- Of a success only the request id is left to check. -/
theorem ReadsEnvelope.check_success {L : Lengths} {g : Graph} {requestId : JsString}
    {payload : Tree} {v : Value} (h : ReadsEnvelope g requestId true "result" payload v) :
    RpcResponseSchema.check L g = checkString L (some 128) (.string requestId) := by
  unfold RpcResponseSchema.check
  rw [h.entries]
  change (true && checkString L (some 128) (.string requestId) && ((true && true && true) || _)) = _
  simp

/-- Of a failure only the request id and the error are left to check. -/
theorem ReadsEnvelope.check_failure {L : Lengths} {g : Graph} {requestId : JsString}
    {payload : Tree} {v : Value} (h : ReadsEnvelope g requestId false "error" payload v) :
    RpcResponseSchema.check L g =
      (checkString L (some 128) (.string requestId) && RpcErrorSchema.check L g.heap v) := by
  unfold RpcResponseSchema.check
  rw [h.entries]
  change (true && checkString L (some 128) (.string requestId) &&
    (false || (true && RpcErrorSchema.check L g.heap v && true))) = _
  simp

theorem RpcError.nodup (e : RpcError) : (Node.object e.fields).KeysNodup := by
  obtain ⟨code, message, retryable, details⟩ := e
  cases details with
  | none =>
      refine ⟨?_, trivial, trivial, trivial, trivial⟩
      simp only [RpcError.fields, Node.keys]
      decide
  | some details =>
      refine ⟨?_, trivial, trivial, trivial, details.nodup, trivial⟩
      simp only [RpcError.fields, Node.keys]
      decide

/-- Of an error the code and the message are left to check. -/
theorem check_error {L : Lengths} {h : Heap} {v : Value} {e : RpcError}
    (hd : Denotes h (k := .value) v (Node.object e.fields).wire) :
    RpcErrorSchema.check L h v =
      (checkString L (some 128) (.string e.code) && checkString L none (.string e.message)) := by
  obtain ⟨code, message, retryable, details⟩ := e
  rw [Node.wire] at hd
  obtain ⟨entries, hentries, hprops⟩ := entriesOf_of_denotes hd
  unfold RpcErrorSchema.check
  rw [hentries]
  cases details with
  | none =>
      simp only [RpcError.fields, Node.wire] at hprops
      obtain ⟨_, _, rfl, rfl, _, _, rfl, rfl, _, _, rfl, rfl, rfl⟩ := hprops
      change (checkString L (some 128) (.string code) && checkString L none (.string message) &&
        true && true) = _
      simp
  | some details =>
      simp only [RpcError.fields, Node.wire] at hprops
      obtain ⟨_, _, rfl, rfl, _, _, rfl, rfl, _, _, rfl, rfl, v, _, rfl, -, rfl⟩ := hprops
      change (checkString L (some 128) (.string code) && checkString L none (.string message) &&
        true && true) = _
      simp

/-- A success is accepted when its request id is short enough. -/
theorem accepted_success {L : Lengths} {requestId requestId' : JsString} {result : JsonTree} :
    AcceptedAs L (encodeUtf8 (successTree requestId result).text) requestId' ↔
      requestId = requestId' ∧ ShortString L requestId := by
  obtain ⟨g, v, hdecode, hreads⟩ := reads_envelope requestId true (.inl rfl) result.nodup
  rw [← checkString_short, ← hreads.check_success]
  constructor
  · rintro ⟨g', response, hg', hparse, hid⟩
    obtain rfl := Option.some.inj (hdecode.symm.trans hg')
    obtain ⟨hcheck, rfl⟩ := (parseRpcResponse_ok_iff hreads.json).mp hparse
    exact ⟨hreads.requestId_eq.symm.trans hid, hcheck⟩
  · rintro ⟨rfl, hcheck⟩
    exact ⟨g, _, hdecode, (parseRpcResponse_ok_iff hreads.json).mpr ⟨hcheck, rfl⟩,
      hreads.requestId_eq⟩

/-- A failure is accepted when its request id, its code and its message have
the lengths of the schema. -/
theorem accepted_failure {L : Lengths} {requestId requestId' : JsString} {e : RpcError} :
    AcceptedAs L (encodeUtf8 (failureTree requestId e).text) requestId' ↔
      requestId = requestId' ∧ ShortString L requestId ∧ ShortString L e.code ∧
        1 ≤ L.length e.message := by
  obtain ⟨g, v, hdecode, hreads⟩ := reads_envelope requestId false (.inr rfl) e.nodup
  have hcheck : RpcResponseSchema.check L g = true ↔
      ShortString L requestId ∧ ShortString L e.code ∧ 1 ≤ L.length e.message := by
    rw [hreads.check_failure, check_error hreads.payload]
    simp [checkString, ShortString, and_assoc]
  rw [← hcheck]
  constructor
  · rintro ⟨g', response, hg', hparse, hid⟩
    obtain rfl := Option.some.inj (hdecode.symm.trans hg')
    obtain ⟨hcheck, rfl⟩ := (parseRpcResponse_ok_iff hreads.json).mp hparse
    exact ⟨hreads.requestId_eq.symm.trans hid, hcheck⟩
  · rintro ⟨rfl, hcheck⟩
    exact ⟨g, _, hdecode, (parseRpcResponse_ok_iff hreads.json).mpr ⟨hcheck, rfl⟩,
      hreads.requestId_eq⟩

end Benchhand.Rpc
