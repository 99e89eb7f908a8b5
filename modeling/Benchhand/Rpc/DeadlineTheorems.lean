/-
Benchhand.Rpc.DeadlineTheorems — when a timeout is reported.

The daemon compares its clock with the deadline and no operation of it throws
`TIMEOUT` (`expired_of_reports`). The timer of the client runs out at the
deadline as long as the deadline is not more than 2147483647 milliseconds away;
a longer delay is a delay of one millisecond. So no run of a call reports a
timeout early just when the deadline is near enough at the beginning
(`punctual_iff`).
-/
import Benchhand.Daemon.ServerTheorems
import Benchhand.Rpc.Exchange

namespace Benchhand.Js

open Text

/-! ## Properties of an object that was read -/

/-- The tree of the property with this key. -/
def Node.find? (key : JsString) : Node .props → Option Tree
  | .noProps => none
  | .prop k head rest => if k = key then some head else rest.find? key

theorem Node.find?_wire (key : JsString) : ∀ props : Node .props,
    props.wire.find? key = (props.find? key).map Node.wire
  | .noProps => by rw [Node.wire, Node.find?, Option.map_none]
  | .prop k head rest => by
      rw [Node.wire, Node.find?, Node.find?, Node.find?_wire key rest]
      split <;> rfl

theorem Denotes.lookup {h : Heap} (key : JsString) : ∀ {ps : List (JsString × Value)}
    (props : Node .props), Denotes h (k := .props) ps props →
      (props.find? key = none → ps.lookup key = none) ∧
      ∀ t, props.find? key = some t → ∃ v, ps.lookup key = some v ∧ Denotes h (k := .value) v t
  | _, .noProps, hd => by
      obtain rfl : _ = [] := hd
      rw [Node.find?]
      exact ⟨fun _ => rfl, fun t ht => by cases ht⟩
  | _, .prop k head rest, hd => by
      obtain ⟨v, ps, rfl, hv, hrest⟩ := hd
      rw [Node.find?, List.lookup_cons]
      by_cases hk : k = key
      · rw [if_pos hk, beq_iff_eq.mpr hk.symm]
        constructor
        · intro hnone
          cases hnone
        · intro t ht
          exact ⟨v, rfl, Option.some.inj ht ▸ hv⟩
      · rw [if_neg hk, beq_eq_false_iff_ne.mpr (Ne.symm hk)]
        exact Denotes.lookup key rest hrest

end Benchhand.Js

namespace Benchhand.Rpc

open Text Js Contracts

/-- A property of an object is what its tree says. -/
theorem property_of_denotes {g : Graph} {props : Node .props} (hd : g.Denotes (.object props))
    (key : JsString) : (props.find? key = none → g.heap.property g.root key = .undefined) ∧
      ∀ t, props.find? key = some t →
        Denotes g.heap (k := .value) (g.heap.property g.root key) t := by
  obtain ⟨entries, hentries, hprops⟩ := entriesOf_of_denotes hd
  obtain ⟨hnone, hsome⟩ := Denotes.lookup key props hprops
  rw [property_of_entries hentries]
  refine ⟨fun h => by rw [hnone h, Option.getD_none], fun t ht => ?_⟩
  obtain ⟨v, hv, hdenotes⟩ := hsome t ht
  rwa [hv, Option.getD_some]

theorem find?_objectOf (name : String) : ∀ fields : List (String × JsonTree),
    (JsonTree.propsOf (fields.map fun field => (js field.1, field.2))).find? (js name) =
      (fields.lookup name).map JsonTree.tree
  | [] => by rw [List.map_nil, JsonTree.propsOf, Node.find?, List.lookup_nil, Option.map_none]
  | (key, x) :: fields => by
      rw [List.map_cons, JsonTree.propsOf, Node.find?, List.lookup_cons]
      by_cases hkey : key = name
      · rw [if_pos (congrArg js hkey), beq_iff_eq.mpr hkey.symm, Option.map_some]
      · rw [if_neg (js_injective.ne hkey), beq_eq_false_iff_ne.mpr (Ne.symm hkey),
          find?_objectOf name fields]

/-! ## The deadline of a request -/

/-- The deadline of a request that is accepted. -/
def RpcCallRequest.deadline (request : RpcCallRequest) : Option Int :=
  request.deadlineUnixMs.bind Filesystem.integer?

theorem RpcCallRequest.wire_deadline (request : RpcCallRequest) :
    ∃ props, request.wire.tree = .object props ∧
      props.find? (js "deadlineUnixMs") = request.deadlineUnixMs.map Node.number := by
  refine ⟨_, rfl, (find?_objectOf "deadlineUnixMs" _).trans ?_⟩
  cases request.operationId <;> cases request.deadlineUnixMs <;> rfl

section
variable {g : Graph}

theorem deadline_number {n : Number}
    (h : g.heap.property g.root (js "deadlineUnixMs") = .number n) :
    (RpcRequest.ofGraph g).deadlineUnixMs = Filesystem.integer? n := by
  unfold RpcRequest.ofGraph
  rw [h]

theorem deadline_undefined (h : g.heap.property g.root (js "deadlineUnixMs") = .undefined) :
    (RpcRequest.ofGraph g).deadlineUnixMs = none := by
  unfold RpcRequest.ofGraph
  rw [h]

theorem deadline_null (h : g.heap.property g.root (js "deadlineUnixMs") = .null) :
    (RpcRequest.ofGraph g).deadlineUnixMs = none := by
  unfold RpcRequest.ofGraph
  rw [h]

theorem integer?_zero (neg : Bool) :
    Filesystem.integer? (.finite (.zero neg)) = Filesystem.integer? (.finite (.zero false)) := by
  cases neg <;> decide +kernel

/-- On its way a number loses at most the sign of a zero. -/
theorem denotes_wire_number {h : Heap} {v : Value} {n : Number}
    (hd : Denotes h (k := .value) v (Node.number n).wire) :
    (∃ m, v = .number m ∧ Filesystem.integer? m = Filesystem.integer? n) ∨
      (v = .null ∧ Filesystem.integer? n = none) := by
  cases n with
  | finite x =>
      rw [Node.wire] at hd
      refine .inl ⟨_, hd, ?_⟩
      cases hzero : x.isZero with
      | false => rfl
      | true =>
          rw [if_pos rfl, (Double.isZero_iff x).mp hzero]
          exact (integer?_zero x.neg).symm
  | infinity neg =>
      rw [Node.wire] at hd
      exact .inr ⟨hd, rfl⟩
  | nan =>
      rw [Node.wire] at hd
      exact .inr ⟨hd, rfl⟩

variable {request : RpcCallRequest}

/-- The client reads the deadline of its request, -/
theorem deadline_checked (hd : g.Denotes request.wire.tree) :
    (RpcRequest.ofGraph g).deadlineUnixMs = request.deadline := by
  obtain ⟨props, hprops, hfind⟩ := request.wire_deadline
  rw [hprops] at hd
  obtain ⟨hnone, hsome⟩ := property_of_denotes hd (js "deadlineUnixMs")
  rw [RpcCallRequest.deadline]
  rw [hfind] at hnone hsome
  cases hdeadline : request.deadlineUnixMs with
  | none => exact deadline_undefined (hnone (by rw [hdeadline, Option.map_none]))
  | some n => exact deadline_number (hsome (.number n) (by rw [hdeadline, Option.map_some]))

/-- and the daemon reads the same one. -/
theorem deadline_served (hd : g.Denotes request.wire.tree.wire) :
    (RpcRequest.ofGraph g).deadlineUnixMs = request.deadline := by
  obtain ⟨props, hprops, hfind⟩ := request.wire_deadline
  rw [hprops, Node.wire] at hd
  obtain ⟨hnone, hsome⟩ := property_of_denotes hd (js "deadlineUnixMs")
  rw [Node.find?_wire, hfind] at hnone hsome
  rw [RpcCallRequest.deadline]
  cases hdeadline : request.deadlineUnixMs with
  | none => exact deadline_undefined (hnone (by rw [hdeadline, Option.map_none, Option.map_none]))
  | some n =>
      obtain ⟨m, hm, hinteger⟩ | ⟨hnull, hinteger⟩ :=
        denotes_wire_number (hsome _ (by rw [hdeadline, Option.map_some, Option.map_some]))
      · exact (deadline_number hm).trans hinteger
      · exact (deadline_null hnull).trans hinteger.symm

end

/-! ## Timeouts of the daemon -/

open Daemon

theorem property_ok {g : Graph} {requestId : JsString} {ok : Bool} {name : String}
    {payload : Tree} {v : Value} (h : ReadsEnvelope g requestId ok name payload v) :
    g.heap.property g.root (js "ok") = .boolean ok := by
  rw [property_of_entries h.entries]
  rfl

theorem not_reports_success {requestId : JsString} {result : JsonTree} :
    ¬ ReportsTimeout (encodeUtf8 (successTree requestId result).text) := by
  rintro ⟨g, e, hg, houtcome, -⟩
  obtain ⟨g', v, hdecode, hreads⟩ := reads_envelope requestId true (.inl rfl) result.nodup
  obtain rfl := Option.some.inj (hdecode.symm.trans hg)
  unfold RpcResponse.ofGraph at houtcome
  rw [property_ok hreads, if_pos rfl] at houtcome
  cases houtcome

theorem code_of_reports {requestId : JsString} {e : RpcError}
    (h : ReportsTimeout (encodeUtf8 (failureTree requestId e).text)) : e.code = js "TIMEOUT" := by
  obtain ⟨g, wire, hg, houtcome, hcode⟩ := h
  obtain ⟨g', v, hdecode, hreads⟩ := reads_envelope requestId false (.inr rfl) e.nodup
  obtain rfl := Option.some.inj (hdecode.symm.trans hg)
  unfold RpcResponse.ofGraph at houtcome
  rw [property_ok hreads, if_neg (by decide)] at houtcome
  obtain rfl := Except.error.inj houtcome
  have hroot : (property g' "error").root = v := by
    change g'.heap.property g'.root (js "error") = v
    rw [property_of_entries hreads.entries]
    rfl
  have hdenotes : (property g' "error").Denotes (.object e.fields.wire) := by
    unfold Graph.Denotes
    rw [hroot, ← Node.wire]
    exact hreads.payload
  obtain ⟨-, hsome⟩ := property_of_denotes hdenotes (js "code")
  have hfind : e.fields.wire.find? (js "code") = some (.string e.code) := by
    rw [Node.find?_wire, RpcError.fields, Node.find?, if_pos rfl, Option.map_some, Node.wire]
  have hproperty := hsome _ hfind
  change stringOf _ = _ at hcode
  rwa [show _ = Value.string e.code from hproperty] at hcode

theorem coded_collectChunks : ∀ (bytes : Nat) (chunks : List Bytes),
    Coded (collectChunks bytes chunks)
  | _, [] => coded_ok
  | bytes, chunk :: rest => by
      rw [collectChunks]
      split
      · exact coded_error code_invalid
      · cases hrest : collectChunks (bytes + chunk.length) rest with
        | ok body => exact coded_ok
        | error e => exact coded_error (coded_collectChunks _ rest e hrest)

theorem coded_readRequestBody (received : HttpRequest) : Coded (readRequestBody received) := by
  refine coded_bind (coded_collectChunks 0 received.chunks) fun bytes => ?_
  cases received.ending with
  | ended => exact coded_ok
  | aborted => exact coded_error code_invalid
  | failed message => exact coded_error code_invalid

theorem length_of_collectChunks : ∀ {bytes : Nat} {chunks : List Bytes} {body : Bytes},
    collectChunks bytes chunks = .ok body → bytes ≤ maxRequestBytes →
      bytes + chunks.flatten.length ≤ maxRequestBytes
  | _, [], _, _, hbytes => hbytes
  | bytes, chunk :: rest, body, h, _ => by
      rw [collectChunks] at h
      split at h
      · cases h
      · rename_i hle
        cases hrest : collectChunks (bytes + chunk.length) rest with
        | ok body' =>
            have ih := length_of_collectChunks hrest (Nat.le_of_not_lt hle)
            rw [List.flatten_cons, List.length_append]
            omega
        | error e =>
            rw [hrest] at h
            cases h

/-- Only a body that arrives whole is read. -/
theorem wellSent_of_read {received : HttpRequest} {text : JsString}
    (hmethod : received.method = js "POST") (hurl : received.url = js "/rpc")
    (h : readRequestBody received = .ok text) : WellSent received := by
  unfold readRequestBody at h
  cases hbytes : collectChunks 0 received.chunks with
  | error e =>
      rw [hbytes] at h
      cases h
  | ok bytes =>
      rw [hbytes] at h
      have hsize := length_of_collectChunks hbytes (Nat.zero_le _)
      rw [Nat.zero_add] at hsize
      refine ⟨hmethod, hurl, hsize, ?_⟩
      cases hending : received.ending with
      | ended => rfl
      | aborted =>
          rw [hending] at h
          cases h
      | failed message =>
          rw [hending] at h
          cases h

/-- The daemon reports a timeout only of a request whose deadline has passed. -/
theorem expired_of_reports {engine : Engine} {L : Lengths} {services : Services} {now : Int}
    {received : HttpRequest} {body : Bytes} (hmethod : received.method = js "POST")
    (hurl : received.url = js "/rpc") (hbody : body ∈ replies engine L services now received)
    (hreports : ReportsTimeout body) :
    received.ending = .ended ∧ ∃ decoded rpcRequest, Json.parse received.text = some decoded ∧
      parseRpcRequest L decoded = .ok rpcRequest ∧
      expired rpcRequest.deadlineUnixMs now = true := by
  cases hread : readRequestBody received with
  | error e =>
      rw [replies_unread hmethod hurl hread, List.mem_singleton] at hbody
      subst hbody
      exact absurd (code_of_reports hreports) (coded_readRequestBody received e hread).2
  | ok text =>
      have hsent := wellSent_of_read hmethod hurl hread
      refine ⟨hsent.ending, ?_⟩
      rw [replies_eq hsent, List.mem_singleton] at hbody
      subst hbody
      obtain ⟨e, houtcome, hcode⟩ : ∃ e, outcomeOfText engine L services now received.text =
          .error e ∧ e.code = js "TIMEOUT" := by
        cases houtcome : outcomeOfText engine L services now received.text with
        | ok result =>
            rw [houtcome] at hreports
            exact absurd hreports not_reports_success
        | error e =>
            rw [houtcome] at hreports
            exact ⟨e, rfl, code_of_reports hreports⟩
      unfold outcomeOfText at houtcome
      cases hparse : Json.parse received.text with
      | none =>
          rw [hparse] at houtcome
          obtain rfl := Except.error.inj houtcome
          exact absurd hcode code_invalid.2
      | some decoded =>
          rw [hparse] at houtcome
          dsimp only at houtcome
          unfold outcomeOf at houtcome
          cases hversion : unsupportedVersionOf decoded with
          | some requested =>
              rw [hversion] at houtcome
              have hne : js "UNSUPPORTED_SCHEMA_VERSION" ≠ js "TIMEOUT" := by decide
              obtain rfl := Except.error.inj houtcome
              exact absurd hcode hne
          | none =>
              rw [hversion] at houtcome
              cases hrequest : parseRpcRequest L decoded with
              | error e' =>
                  rw [hrequest] at houtcome
                  obtain rfl := Except.error.inj houtcome
                  exact absurd hcode code_invalid.2
              | ok rpcRequest =>
                  rw [hrequest] at houtcome
                  dsimp only at houtcome
                  refine ⟨decoded, rpcRequest, rfl, hrequest, ?_⟩
                  cases hexpired : expired rpcRequest.deadlineUnixMs now with
                  | true => rfl
                  | false =>
                      rw [hexpired, if_neg Bool.false_ne_true] at houtcome
                      cases hdispatch : dispatchRpc services rpcRequest with
                      | ok result =>
                          rw [hdispatch] at houtcome
                          cases houtcome
                      | error thrown =>
                          rw [hdispatch] at houtcome
                          obtain rfl := Except.error.inj houtcome
                          exact absurd hcode (dispatchRpc_coded services rpcRequest _ hdispatch).2

/-! ## Callbacks -/

theorem RpcCallRequest.parse_payload (request : RpcCallRequest) :
    Json.parse (decodeUtf8Lossy request.payload) = some (Graph.ofTree request.wire.tree.wire) := by
  rw [RpcCallRequest.payload, decodeUtf8Lossy_encodeUtf8 (wellFormed_text _), Json.parse,
    parseTree_text]
  rfl

theorem delivers_cases {request : RpcCallRequest} {received : HttpRequest}
    (h : request.delivers received = true) : received.method = js "POST" ∧
      received.url = js "/rpc" ∧
      (received.ending = .ended → received.chunks.flatten = request.payload) := by
  obtain ⟨hendpoint, hpayload⟩ := Bool.and_eq_true_iff.mp h
  obtain ⟨hmethod, hurl⟩ := Bool.and_eq_true_iff.mp hendpoint
  refine ⟨beq_iff_eq.mp hmethod, beq_iff_eq.mp hurl, fun hending => ?_⟩
  rw [hending] at hpayload
  exact beq_iff_eq.mp hpayload

theorem ofGraph_of_parse {L : Lengths} {g : Graph} {rpcRequest : RpcRequest}
    (h : parseRpcRequest L g = .ok rpcRequest) : rpcRequest = .ofGraph g := by
  unfold parseRpcRequest parseSchema at h
  split at h
  · cases h
  · exact (Except.ok.inj h).symm

section
variable {engine : Engine} {L : Lengths} {request : RpcCallRequest} {deadline now now' : Int}

theorem not_timeout {code : String} (hcode : js code ≠ js "TIMEOUT") {message : JsString}
    {retryable : Bool} : ¬ isTimeout (.error (.call (.local code message retryable))) = true :=
  fun h => hcode (beq_iff_eq.mp h)

theorem not_timeout_transport {message : JsString} :
    ¬ isTimeout (.error (.call (.local "TRANSPORT_FAILURE" message true))) = true :=
  not_timeout (by decide)

/-- What the client takes for a timeout, reports one. -/
theorem reports_of_read {requestId : JsString} {body : Bytes}
    (h : isTimeout (Waiting.read engine L requestId body) = true) : ReportsTimeout body := by
  unfold Waiting.read at h
  cases hparse : Json.parse (decodeUtf8Lossy body) with
  | none =>
      rw [hparse] at h
      exact absurd h not_timeout_transport
  | some decoded =>
      rw [hparse] at h
      dsimp only at h
      cases hresponse : parseRpcResponse L decoded with
      | error e =>
          rw [hresponse] at h
          exact absurd h not_timeout_transport
      | ok response =>
          rw [hresponse] at h
          dsimp only at h
          split at h
          · exact absurd h not_timeout_transport
          · obtain rfl : RpcResponse.ofGraph decoded = response := by
              unfold parseRpcResponse parseSchema at hresponse
              split at hresponse
              · cases hresponse
              · exact Except.ok.inj hresponse
            cases houtcome : (RpcResponse.ofGraph decoded).outcome with
            | ok result =>
                rw [houtcome] at h
                cases h
            | error e =>
                rw [houtcome] at h
                exact ⟨decoded, e, hparse, houtcome, beq_iff_eq.mp h⟩

/-- Neither the timer nor a flag nor the outcome of the call is early. -/
structure Waiting.Timely (deadline now : Int) (w : Waiting) : Prop where
  timer : ∀ t, w.timer = some t → deadline ≤ t
  timedOut : w.timedOut = true → deadline ≤ now
  settled : w.settled.any isTimeout = true → deadline ≤ now

namespace Waiting.Timely

variable {w : Waiting}

theorem mono (h : w.Timely deadline now) (hle : now ≤ now') : w.Timely deadline now' where
  timer := h.timer
  timedOut := fun htimed => Int.le_trans (h.timedOut htimed) hle
  settled := fun hsettled => Int.le_trans (h.settled hsettled) hle

theorem settle (h : w.Timely deadline now) {outcome : Settled}
    (houtcome : isTimeout outcome = true → deadline ≤ now) :
    (w.settle outcome).Timely deadline now := by
  unfold Waiting.settle
  split
  · exact h
  · exact ⟨fun t ht => (by cases ht), h.timedOut, houtcome⟩

theorem callback (h : w.Timely deadline now) {written : List Bytes}
    (hwritten : ∀ body ∈ written, ReportsTimeout body → deadline ≤ now) {a : Action} {w' : Waiting}
    (hw : w.callback engine L now written a = some w') : w'.Timely deadline now := by
  cases a with
  | timeout =>
      obtain ⟨hdue, hw⟩ := Option.ite_none_right_eq_some.mp hw
      obtain rfl := Option.some.inj hw
      obtain ⟨t, ht, hle⟩ := (Option.any_eq_true _ _).mp hdue
      have hreached : deadline ≤ now := Int.le_trans (h.timer t ht) (of_decide_eq_true hle)
      exact ⟨fun t ht => (by cases ht), fun _ => hreached, h.settled⟩
  | callerAbort =>
      obtain rfl := Option.some.inj hw
      unfold Waiting.onCallerAbort
      split
      · exact h
      · exact ⟨h.timer, h.timedOut, h.settled⟩
  | data chunk =>
      obtain ⟨-, hw⟩ := Option.ite_none_right_eq_some.mp hw
      obtain rfl := Option.some.inj hw
      unfold Waiting.onData
      split
      · exact ⟨h.timer, h.timedOut, h.settled⟩
      · exact ⟨h.timer, h.timedOut, h.settled⟩
  | «end» =>
      obtain ⟨hcomplete, hw⟩ := Option.ite_none_right_eq_some.mp hw
      obtain rfl := Option.some.inj hw
      have hbody : w.chunks.flatten ∈ written :=
        List.contains_iff_mem.mp (Bool.and_eq_true_iff.mp hcomplete).2
      exact h.settle fun htimeout => hwritten _ hbody (reports_of_read htimeout)
  | responseError message =>
      obtain rfl := Option.some.inj hw
      exact h.settle fun htimeout => absurd htimeout not_timeout_transport
  | requestError code message =>
      obtain rfl := Option.some.inj hw
      unfold Waiting.onRequestError
      split
      · rename_i htimed
        exact h.settle fun _ => h.timedOut htimed
      · split
        · exact h.settle fun htimeout => absurd htimeout (not_timeout (by decide))
        · split
          · exact h.settle fun htimeout => absurd htimeout (not_timeout (by decide))
          · exact h.settle fun htimeout => absurd htimeout not_timeout_transport
  | tick elapsed => cases hw
  | check signalAborted => cases hw
  | send => cases hw
  | serve services received => cases hw

end Waiting.Timely

/-! ## Runs -/

/-- The timer that `requestOverIpc` sets does not run out early when the
deadline is near. -/
theorem timely_start {wireRequest : RpcRequest} (hdeadline : wireRequest.deadlineUnixMs = some deadline)
    (hnear : deadline - now ≤ 2147483647) : (Waiting.start wireRequest now).Timely deadline now where
  timer t ht := by
    rw [Waiting.start, hdeadline] at ht
    obtain rfl := Option.some.inj ht
    dsimp only [setTimeout]
    split <;> omega
  timedOut h := by cases h
  settled h := by cases h

/-- A call that began at a moment when the deadline was near. -/
structure Exchange.Timely (start deadline : Int) (s : Exchange) : Prop where
  clock : start ≤ s.clock
  ready : ∀ r, s.call.ready = some r → r.deadlineUnixMs = some deadline
  waits : ∀ w, s.call.waits = some w → w.Timely deadline s.clock
  punctual : s.Punctual deadline

variable {start : Int} (hdeadline : request.deadline = some deadline)
include hdeadline

theorem timely_check {s : Exchange} (h : s.Timely start deadline) (signalAborted : Bool) :
    ({ s with call := .check L request signalAborted s.clock } : Exchange).Timely start deadline := by
  unfold CallState.check checkCall
  cases hparse : parseRpcRequest L (Graph.ofTree request.wire.tree) with
  | error e =>
      exact ⟨h.clock, fun r hr => (by cases hr), fun w hw => (by cases hw),
        fun htimed => (by cases htimed), h.punctual.daemon⟩
  | ok wireRequest =>
      have hwire : wireRequest.deadlineUnixMs = some deadline := by
        rw [ofGraph_of_parse hparse,
          deadline_checked (Graph.ofTree_denotes request.wire.nodup), hdeadline]
      dsimp only
      rw [hwire]
      cases hexpired : expired (some deadline) s.clock with
      | true =>
          have hreached : deadline ≤ s.clock := of_decide_eq_true hexpired
          exact ⟨h.clock, fun r hr => (by cases hr), fun w hw => (by cases hw),
            fun _ => hreached, h.punctual.daemon⟩
      | false =>
          rw [if_neg Bool.false_ne_true]
          cases signalAborted with
          | true =>
              exact ⟨h.clock, fun r hr => (by cases hr), fun w hw => (by cases hw),
                fun htimed => absurd htimed (not_timeout (by decide)), h.punctual.daemon⟩
          | false =>
              refine ⟨h.clock, fun r hr => ?_, fun w hw => (by cases hw),
                fun htimed => (by cases htimed), h.punctual.daemon⟩
              obtain rfl := Option.some.inj hr
              exact hwire

/-- Every step keeps a call timely. -/
theorem timely_step (hnear : deadline - start ≤ 2147483647) {s s' : Exchange}
    (h : s.Timely start deadline) {a : Action} (hs : s.step engine L request a = some s') : s'.Timely start deadline := by
  cases a with
  | tick elapsed =>
      obtain rfl := Option.some.inj hs
      have hle : s.clock ≤ s.clock + elapsed := by omega
      exact ⟨Int.le_trans h.clock hle, h.ready, fun w hw => (h.waits w hw).mono hle,
        fun htimed => Int.le_trans (h.punctual.client htimed) hle,
        fun body hbody hreports => Int.le_trans (h.punctual.daemon body hbody hreports) hle⟩
  | check signalAborted =>
      obtain ⟨-, hs⟩ := Option.ite_none_right_eq_some.mp hs
      obtain rfl := Option.some.inj hs
      exact timely_check hdeadline h signalAborted
  | send =>
      obtain ⟨wireRequest, hready, rfl⟩ := Option.map_eq_some_iff.mp hs
      have hclock := h.clock
      have hstart : (Waiting.start wireRequest s.clock).Timely deadline s.clock :=
        timely_start (h.ready wireRequest hready) (by omega)
      refine ⟨h.clock, fun r hr => (by cases hr), fun w hw => ?_, fun htimed => (by cases htimed),
        h.punctual.daemon⟩
      obtain rfl := Option.some.inj hw
      exact hstart
  | serve services received =>
      obtain ⟨hguard, hs⟩ := Option.ite_none_right_eq_some.mp hs
      obtain rfl := Option.some.inj hs
      refine ⟨h.clock, h.ready, h.waits, h.punctual.client, fun body hbody hreports => ?_⟩
      obtain hold | hnew := List.mem_append.mp hbody
      · exact h.punctual.daemon body hold hreports
      obtain ⟨hmethod, hurl, hpayload⟩ := delivers_cases (Bool.and_eq_true_iff.mp hguard).2
      obtain ⟨hending, decoded, rpcRequest, hparse, hrequest, hexpired⟩ :=
        expired_of_reports hmethod hurl hnew hreports
      rw [HttpRequest.text, hpayload hending, request.parse_payload] at hparse
      obtain rfl := Option.some.inj hparse
      rw [ofGraph_of_parse hrequest,
        deadline_served (Graph.ofTree_denotes (keysNodup_wire request.wire.nodup)),
        hdeadline] at hexpired
      exact of_decide_eq_true hexpired
  | _ =>
      obtain ⟨w, hw, hs⟩ := Option.bind_eq_some_iff.mp hs
      obtain ⟨w', hw', rfl⟩ := Option.map_eq_some_iff.mp hs
      have hcallback := (h.waits w hw).callback h.punctual.daemon hw'
      refine ⟨h.clock, fun r hr => (by cases hr), fun w'' hw'' => ?_, hcallback.settled,
        h.punctual.daemon⟩
      obtain rfl := Option.some.inj hw''
      exact hcallback

/-- A call whose deadline is near does not report a timeout early. -/
theorem punctual_of_near (hnear : deadline - start ≤ 2147483647) (actions : List Action) :
    ((Exchange.start start).run engine L request actions).Punctual deadline := by
  have hstep (s : Exchange) (a : Action) (h : s.Timely start deadline) :
      ((s.step engine L request a).getD s).Timely start deadline := by
    cases hs : s.step engine L request a with
    | none => exact h
    | some s' => exact timely_step hdeadline hnear h hs
  have hbegin : (Exchange.start start).Timely start deadline :=
    ⟨Int.le_refl _, fun r hr => (by cases hr), fun w hw => (by cases hw),
      fun htimed => (by cases htimed), fun body hbody => (by cases hbody)⟩
  exact (Process.runFrom_invariant hstep actions hbegin).punctual

omit hdeadline in
/-- A call whose deadline is further away can report a timeout after a
millisecond. -/
theorem early_of_far {wireRequest : RpcRequest}
    (haccepted : parseRpcRequest L (Graph.ofTree request.wire.tree) = .ok wireRequest)
    (hdeadline : wireRequest.deadlineUnixMs = some deadline)
    (hfar : 2147483647 < deadline - start) :
    ∃ actions, ¬ ((Exchange.start start).run engine L request actions).Punctual deadline := by
  refine ⟨[.check false, .send, .tick 1, .timeout, .requestError none []], fun h => ?_⟩
  let w := Waiting.start wireRequest start
  have hexpired : expired (some deadline) start = false := decide_eq_false (by omega)
  have hcheck : (Exchange.start start).step engine L request (.check false) =
      some ⟨start, .checked wireRequest, []⟩ := by
    have hchecked : CallState.check L request false start = .checked wireRequest := by
      unfold CallState.check checkCall
      rw [haccepted]
      dsimp only
      rw [hdeadline, hexpired, if_neg Bool.false_ne_true, if_neg Bool.false_ne_true]
    rw [← hchecked]
    rfl
  have hsend : Exchange.step engine L request ⟨start, .checked wireRequest, []⟩ .send =
      some ⟨start, .waiting w, []⟩ := rfl
  have htick : Exchange.step engine L request ⟨start, .waiting w, []⟩ (.tick 1) =
      some ⟨start + 1, .waiting w, []⟩ := rfl
  have hdue : w.isDue (start + 1) = true := by
    have hlong : 2147483647 < max 0 (deadline - start) := Int.lt_of_lt_of_le hfar (Int.le_max_right _ _)
    have htimer : w.timer = some (start + 1) := by
      dsimp only [w, Waiting.start]
      rw [hdeadline, Option.map_some, setTimeout, if_pos (.inr hlong)]
    rw [Waiting.isDue, htimer]
    exact decide_eq_true (Int.le_refl _)
  have htimeout : Exchange.step engine L request ⟨start + 1, .waiting w, []⟩ .timeout =
      some ⟨start + 1, .waiting w.onTimeout, []⟩ := by
    have hcallback : w.callback engine L (start + 1) [] .timeout = some w.onTimeout := if_pos hdue
    exact congrArg (Option.map fun w' => (⟨start + 1, .waiting w', []⟩ : Exchange)) hcallback
  have herror : Exchange.step engine L request ⟨start + 1, .waiting w.onTimeout, []⟩
      (.requestError none []) =
        some ⟨start + 1, .waiting (w.onTimeout.onRequestError none []), []⟩ := rfl
  unfold Exchange.run at h
  rw [Process.runFrom_cons, hcheck, Option.getD_some, Process.runFrom_cons, hsend,
    Option.getD_some, Process.runFrom_cons, htick, Option.getD_some, Process.runFrom_cons, htimeout,
    Option.getD_some, Process.runFrom_cons, herror, Option.getD_some, Process.runFrom_nil] at h
  have hreached : deadline ≤ start + 1 := h.client rfl
  omega

omit hdeadline in
/-- No run of a call reports a timeout before the deadline just when the
deadline is at most 2147483647 milliseconds away as the call begins. -/
theorem punctual_iff (now : Int) {wireRequest : RpcRequest}
    (haccepted : parseRpcRequest L (Graph.ofTree request.wire.tree) = .ok wireRequest)
    (hdeadline : wireRequest.deadlineUnixMs = some deadline) :
    (∀ actions, ((Exchange.start now).run engine L request actions).Punctual deadline) ↔
      deadline - now ≤ 2147483647 := by
  have hrequest : request.deadline = some deadline := by
    rw [← hdeadline, ofGraph_of_parse haccepted,
      deadline_checked (Graph.ofTree_denotes request.wire.nodup)]
  constructor
  · intro h
    refine Int.not_lt.mp fun hfar => ?_
    obtain ⟨actions, hearly⟩ := early_of_far haccepted hdeadline hfar
    exact hearly (h actions)
  · intro hnear actions
    exact punctual_of_near hrequest hnear actions

end

/-- A call of `system.health` with this deadline. -/
def healthCall (deadlineUnixMs : Nat) : RpcCallRequest where
  requestId := js "req_1"
  method := js "system.health"
  params := .object [] List.nodup_nil
  operationId := none
  deadlineUnixMs := some (.ofNat deadlineUnixMs)

theorem accepted_healthCall {n : Nat} {deadline : Int}
    (haccepted : (parseRpcRequest codeUnits (Graph.ofTree (healthCall n).wire.tree)).isOk = true)
    (hdeadline : (healthCall n).deadline = some deadline) :
    ∃ wireRequest, parseRpcRequest codeUnits (Graph.ofTree (healthCall n).wire.tree) =
      .ok wireRequest ∧ wireRequest.deadlineUnixMs = some deadline := by
  cases hparse : parseRpcRequest codeUnits (Graph.ofTree (healthCall n).wire.tree) with
  | error e =>
      rw [hparse] at haccepted
      cases haccepted
  | ok wireRequest =>
      refine ⟨wireRequest, rfl, ?_⟩
      rw [ofGraph_of_parse hparse,
        deadline_checked (Graph.ofTree_denotes (healthCall n).wire.nodup), hdeadline]

/-- A deadline after a minute is accepted and is kept in every run. -/
theorem punctual_iff_minute :
    (∃ wireRequest, parseRpcRequest codeUnits (Graph.ofTree (healthCall 1767225660000).wire.tree) =
      .ok wireRequest ∧ wireRequest.deadlineUnixMs = some 1767225660000) ∧
    ∀ actions, ((Exchange.start 1767225600000).run plainEngine codeUnits
      (healthCall 1767225660000) actions).Punctual 1767225660000 := by
  obtain ⟨wireRequest, haccepted, hdeadline⟩ :=
    @accepted_healthCall 1767225660000 1767225660000 (by decide +kernel) (by decide +kernel)
  exact ⟨⟨wireRequest, haccepted, hdeadline⟩,
    (punctual_iff 1767225600000 haccepted hdeadline).mpr (by decide)⟩

/-- A deadline after more than 24 days is reported to have passed after a
millisecond. -/
theorem punctual_month : ¬ ∀ actions,
    ((Exchange.start 1767225600000).run plainEngine codeUnits (healthCall 1769817600000)
      actions).Punctual 1769817600000 := by
  obtain ⟨wireRequest, haccepted, hdeadline⟩ :=
    @accepted_healthCall 1769817600000 1769817600000 (by decide +kernel) (by decide +kernel)
  intro h
  obtain ⟨actions, hearly⟩ :=
    @early_of_far plainEngine _ _ _ 1767225600000 _ haccepted hdeadline (by decide)
  exact hearly (h actions)

end Benchhand.Rpc
