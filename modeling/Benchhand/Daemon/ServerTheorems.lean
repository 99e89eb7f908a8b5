/-
Benchhand.Daemon.ServerTheorems — every reply of the daemon.

On an open connection the handler writes one body, the JSON text of a success
or of a failure (`replies_eq`). All codes of the daemon are short
(`dispatchRpc_coded`), so the client accepts the reply, for the request id of
the body, unless that id is too long or an error says nothing
(`reply_accepted`).
-/
import Benchhand.Daemon.Server
import Benchhand.Rpc.MessageTheorems

namespace Benchhand.Daemon

open Text Js Contracts Rpc

/-! ## Codes -/

/-- A code that the schema takes. -/
def Code (s : JsString) : Prop := s ≠ [] ∧ s.length ≤ 128

theorem Code.short {L : Lengths} {s : JsString} (h : Code s) : ShortString L s :=
  ⟨L.pos s h.1, (L.le s).trans h.2⟩

/-- The code of an error that an operation throws: the deadline is the handler's. -/
def OperationCode (s : JsString) : Prop := Code s ∧ s ≠ js "TIMEOUT"

/-- Whatever is thrown, its reply has such a code. -/
def Coded {α : Type} (d : Dispatch α) : Prop :=
  ∀ e, d = .error e → OperationCode e.rpcError.code

section
variable {α β : Type}

theorem coded_ok {a : α} : Coded (.ok a : Dispatch α) := fun _ h => by cases h

theorem coded_pure {a : α} : Coded (pure a : Dispatch α) := coded_ok

theorem coded_error {e : Thrown} (h : OperationCode e.rpcError.code) :
    Coded (.error e : Dispatch α) := by
  rintro _ ⟨⟩
  exact h

theorem coded_bind {d : Dispatch α} {f : α → Dispatch β} (hd : Coded d) (hf : ∀ a, Coded (f a)) :
    Coded (d >>= f) := by
  cases d with
  | ok a => exact hf a
  | error e => exact coded_error (hd e rfl)

theorem coded_ite {c : Prop} [Decidable c] {d d' : Dispatch α} (hd : Coded d) (hd' : Coded d') :
    Coded (if c then d else d') := by
  split
  · exact hd
  · exact hd'

theorem code_invalid : OperationCode (js "INVALID_REQUEST") := by
  refine ⟨⟨?_, ?_⟩, ?_⟩ <;> decide

theorem coded_reject {code : String} {message : JsString} (h : OperationCode (js code)) :
    Coded (reject code message : Dispatch α) := coded_error h

theorem coded_invalid {message : JsString} : Coded (invalid message : Dispatch α) :=
  coded_reject code_invalid

theorem coded_mapError {ε : Type} {r : Except ε α} {f : ε → Thrown}
    (h : ∀ e, OperationCode (f e).rpcError.code) : Coded (r.mapError f) := by
  cases r with
  | ok a => exact coded_ok
  | error e => exact coded_error (h e)

theorem coded_ofContracts {r : Except JsError α} : Coded (ofContracts r) :=
  coded_mapError fun _ => code_invalid

theorem coded_mapM {f : β → Dispatch α} (h : ∀ b, Coded (f b)) : ∀ bs : List β,
    Coded (bs.mapM f)
  | [] => coded_ok
  | b :: bs => by
      rw [List.mapM_cons]
      exact coded_bind (h b) fun _ => coded_bind (coded_mapM h bs) fun _ => coded_pure

/-! ### Params -/

theorem coded_readParamsObject {params : Graph} {method : String} :
    Coded (readParamsObject params method) := by
  unfold readParamsObject
  split
  · exact coded_ok
  · exact coded_invalid

theorem coded_readRequiredString {value : Option Value} {label : String} :
    Coded (readRequiredString value label) := by
  unfold readRequiredString
  split
  · exact coded_ok
  · exact coded_invalid

theorem coded_readWorkspaceIdValue {value : Option Value} {method : String} :
    Coded (readWorkspaceIdValue value method) := by
  unfold readWorkspaceIdValue
  split
  · exact coded_ofContracts
  · exact coded_invalid

theorem coded_optionalString {entries : List (JsString × Value)} {key : String} :
    Coded (optionalString entries key) := by
  unfold optionalString
  split
  · exact coded_ok
  · exact coded_ok
  · exact coded_ok
  · exact coded_invalid

theorem coded_optionalNumber {entries : List (JsString × Value)} {key : String} :
    Coded (optionalNumber entries key) := by
  unfold optionalNumber
  split
  · exact coded_ok
  · exact coded_ok
  · exact coded_ok
  · exact coded_invalid

theorem coded_readFileReadParams {params : Graph} : Coded (readFileReadParams params) :=
  coded_bind coded_readParamsObject fun _ => coded_bind coded_readWorkspaceIdValue fun _ =>
    coded_bind coded_readRequiredString fun _ => coded_bind coded_optionalNumber fun _ =>
      coded_bind coded_optionalNumber fun _ => coded_pure

theorem coded_readFileListParams {params : Graph} : Coded (readFileListParams params) :=
  coded_bind coded_readParamsObject fun _ => coded_bind coded_readWorkspaceIdValue fun _ =>
    coded_bind coded_optionalString fun _ => coded_bind coded_optionalNumber fun _ =>
      coded_bind coded_optionalString fun _ => coded_pure

theorem coded_readFileSearchParams {params : Graph} : Coded (readFileSearchParams params) :=
  coded_bind coded_readParamsObject fun _ => coded_bind coded_readWorkspaceIdValue fun _ =>
    coded_bind coded_optionalString fun _ => coded_bind coded_optionalString fun _ =>
      coded_bind coded_optionalString fun _ => coded_bind coded_optionalNumber fun _ =>
        coded_bind coded_optionalNumber fun _ => coded_bind coded_optionalNumber fun _ =>
          coded_bind coded_optionalNumber fun _ => coded_pure

theorem coded_readExpectedSha256 {value : Option Value} : Coded (readExpectedSha256 value) := by
  unfold readExpectedSha256
  split
  · exact coded_ok
  · exact coded_ok
  · exact coded_ok
  · exact coded_invalid

theorem coded_readFileWriteParams {params : Graph} : Coded (readFileWriteParams params) :=
  coded_bind coded_readParamsObject fun _ => coded_bind coded_readWorkspaceIdValue fun _ =>
    coded_bind coded_readRequiredString fun _ => coded_bind coded_readRequiredString fun _ =>
      coded_bind coded_readExpectedSha256 fun _ => coded_pure

theorem coded_readFilePatchEdits {h : Heap} {value : Option Value} :
    Coded (readFilePatchEdits h value) := by
  have hedit : ∀ edit index, Coded (readFilePatchEdit h edit index) := by
    intro edit index
    unfold readFilePatchEdit
    dsimp only
    split
    · exact coded_ok
    · exact coded_invalid
  unfold readFilePatchEdits
  split
  · exact coded_mapM (fun _ => hedit _ _) _
  · exact coded_invalid

theorem coded_readFilePatchParams {params : Graph} : Coded (readFilePatchParams params) :=
  coded_bind coded_readParamsObject fun _ => coded_bind coded_readWorkspaceIdValue fun _ =>
    coded_bind coded_readRequiredString fun _ => coded_bind coded_readRequiredString fun _ =>
      coded_bind coded_readFilePatchEdits fun _ => coded_pure

theorem coded_readInstructionsResolveParams {params : Graph} :
    Coded (readInstructionsResolveParams params) := by
  refine coded_bind coded_readParamsObject fun value =>
    coded_bind coded_readWorkspaceIdValue fun _ => ?_
  split
  · exact coded_pure
  · exact coded_pure
  · exact coded_pure
  · exact coded_invalid

theorem coded_readSkillsListParams {params : Graph} : Coded (readSkillsListParams params) :=
  coded_bind coded_readParamsObject fun _ => coded_readWorkspaceIdValue

theorem coded_readSkillsReadParams {params : Graph} : Coded (readSkillsReadParams params) := by
  refine coded_bind coded_readParamsObject fun value =>
    coded_bind coded_readWorkspaceIdValue fun _ => ?_
  split
  · split
    · exact coded_invalid
    · exact coded_pure
  · exact coded_invalid

theorem coded_readNonEmpty {value : Value} {message : String} :
    Coded (readNonEmpty value message) := by
  unfold readNonEmpty
  split
  · split
    · exact coded_invalid
    · exact coded_ok
  · exact coded_invalid

theorem coded_readWorkspaceOpenParams {params : Graph} :
    Coded (readWorkspaceOpenParams params) := by
  refine coded_bind coded_readNonEmpty fun path => coded_bind ?_ fun mode =>
    coded_bind ?_ fun baseRef => ?_
  · unfold readWorkspaceMode
    exact coded_ite coded_ok (coded_ite coded_ok coded_invalid)
  · unfold readBaseRef
    exact coded_ite coded_ok (coded_bind coded_readNonEmpty fun _ => coded_ok)
  · exact coded_ite coded_invalid coded_pure

theorem coded_readWorkspaceIdParam {params : Graph} : Coded (readWorkspaceIdParam params) := by
  unfold readWorkspaceIdParam
  split
  · exact coded_ofContracts
  · exact coded_invalid

theorem coded_readOperationIdParam {params : Graph} : Coded (readOperationIdParam params) := by
  unfold readOperationIdParam
  split
  · exact coded_ofContracts
  · exact coded_invalid

/-! ### Services -/

theorem code_filesystem (code : Filesystem.ErrorCode) : OperationCode (js (filesystemCode code)) := by
  cases code <;> exact ⟨⟨by decide, by decide⟩, by decide⟩

theorem code_instructions (code : Instructions.ErrorCode) : OperationCode (js code.text) := by
  cases code <;> exact ⟨⟨by decide, by decide⟩, by decide⟩

theorem code_registry (code : Workspace.Code) : OperationCode (js code.text) := by
  cases code <;> exact ⟨⟨by decide, by decide⟩, by decide⟩

theorem coded_dispatchFilesystem {json : α → JsonTree} {outcome : Except Filesystem.Thrown α} :
    Coded (dispatchFilesystem json outcome) := by
  unfold dispatchFilesystem
  split
  · exact coded_ok
  · exact coded_error (code_filesystem _)
  · exact coded_error code_invalid
  · exact coded_error code_invalid

theorem coded_dispatchInstructions {json : α → JsonTree}
    {outcome : Except Instructions.Thrown α} : Coded (dispatchInstructions json outcome) := by
  unfold dispatchInstructions
  split
  · exact coded_ok
  · exact coded_error (code_instructions _)
  · exact coded_error code_invalid
  · exact coded_error code_invalid

theorem coded_parseResult {result : JsonTree} : Coded (parseResult result) := coded_ofContracts

theorem coded_ofJournal {r : Except ThrownValue α} : Coded (ofJournal r) :=
  coded_mapError fun e => by cases e <;> exact code_invalid

theorem coded_ofRegistry {r : Except Workspace.Thrown α} : Coded (ofRegistry r) :=
  coded_mapError fun _ => code_invalid

theorem coded_ofRegistryOpen {r : Except Workspace.Thrown α} : Coded (ofRegistryOpen r) := by
  refine coded_mapError fun e => ?_
  cases e with
  | registry e => exact code_registry e.code
  | git e => exact code_invalid
  | errno e => exact code_invalid
  | error e => exact code_invalid

end

theorem dispatchRpc_coded (services : Services) (request : RpcRequest) :
    Coded (dispatchRpc services request) := by
  have hnotFound : OperationCode (js "NOT_FOUND") := by refine ⟨⟨?_, ?_⟩, ?_⟩ <;> decide
  have hmethod : OperationCode (js "METHOD_NOT_FOUND") := by refine ⟨⟨?_, ?_⟩, ?_⟩ <;> decide
  unfold dispatchRpc
  refine coded_ite (coded_bind coded_ofContracts fun _ => coded_pure) ?_
  refine coded_ite ?_ ?_
  · refine coded_bind coded_readOperationIdParam fun _ => coded_bind coded_ofJournal fun record => ?_
    cases record with
    | none => exact coded_reject hnotFound
    | some record => exact coded_parseResult
  refine coded_ite (coded_bind coded_readWorkspaceOpenParams fun _ =>
    coded_bind coded_ofRegistryOpen fun _ => coded_parseResult) ?_
  refine coded_ite ?_ ?_
  · refine coded_bind coded_readWorkspaceIdParam fun _ =>
      coded_bind coded_ofRegistry fun workspace => ?_
    cases workspace with
    | none => exact coded_reject hnotFound
    | some workspace => exact coded_parseResult
  refine coded_ite (coded_bind coded_readFileReadParams fun _ => coded_dispatchFilesystem) ?_
  refine coded_ite (coded_bind coded_readFileListParams fun _ => coded_dispatchFilesystem) ?_
  refine coded_ite (coded_bind coded_readFileSearchParams fun _ => coded_dispatchFilesystem) ?_
  refine coded_ite (coded_bind coded_readFileWriteParams fun _ => coded_dispatchFilesystem) ?_
  refine coded_ite (coded_bind coded_readFilePatchParams fun _ => coded_dispatchFilesystem) ?_
  refine coded_ite
    (coded_bind coded_readInstructionsResolveParams fun _ => coded_dispatchInstructions) ?_
  refine coded_ite (coded_bind coded_readSkillsListParams fun _ => coded_dispatchInstructions) ?_
  refine coded_ite (coded_bind coded_readSkillsReadParams fun _ => coded_dispatchInstructions) ?_
  exact coded_reject hmethod

/-! ## Runs -/

/-- A run of a handler. -/
def Handler.runOn {α : Type} (h : Handler α) (s : HandlerState) : Except Thrown α × HandlerState :=
  h.run.run s

section
variable {α β : Type} {s : HandlerState}

theorem runOn_bind (h : Handler α) (f : α → Handler β) (s : HandlerState) :
    (h >>= f).runOn s = match h.runOn s with
      | (.ok a, s') => (f a).runOn s'
      | (.error e, s') => (.error e, s') := by
  unfold Handler.runOn
  rw [ExceptT.run_bind, StateT.run_bind]
  generalize StateT.run h.run s = outcome
  rcases outcome with ⟨outcome, s'⟩
  cases outcome <;> rfl

theorem runOn_bind_ok {h : Handler α} {f : α → Handler β} {s s' : HandlerState} {a : α}
    (hrun : h.runOn s = (.ok a, s')) : (h >>= f).runOn s = (f a).runOn s' := by
  rw [runOn_bind, hrun]

theorem runOn_bind_error {h : Handler α} {f : α → Handler β} {s s' : HandlerState} {e : Thrown}
    (hrun : h.runOn s = (.error e, s')) : (h >>= f).runOn s = (.error e, s') := by
  rw [runOn_bind, hrun]

theorem runOn_ofDispatch_ok {r : Dispatch α} {a : α} (hr : r = .ok a) (f : α → Handler β) :
    (ofDispatch r >>= f).runOn s = (f a).runOn s :=
  runOn_bind_ok (by rw [hr]; rfl)

theorem runOn_ofDispatch_error {r : Dispatch α} {e : Thrown} (hr : r = .error e)
    (f : α → Handler β) : (ofDispatch r >>= f).runOn s = (.error e, s) :=
  runOn_bind_error (by rw [hr]; rfl)

theorem runOn_modify (g : HandlerState → HandlerState) (f : PUnit → Handler α) :
    (modify g >>= f).runOn s = (f ⟨⟩).runOn (g s) := runOn_bind_ok rfl

theorem runOn_get (f : HandlerState → Handler α) : (get >>= f).runOn s = (f s).runOn s :=
  runOn_bind_ok rfl

theorem runOn_tryCatch (h : Handler α) (handle : Thrown → Handler α) (s : HandlerState) :
    (tryCatch h handle).runOn s = match h.runOn s with
      | (.ok a, s') => (.ok a, s')
      | (.error e, s') => (handle e).runOn s' := by
  unfold Handler.runOn
  rw [ExceptT.run_tryCatch, StateT.run_bind]
  generalize StateT.run h.run s = outcome
  rcases outcome with ⟨outcome, s'⟩
  cases outcome <;> rfl

/-- A response with one body. -/
def ServerResponse.sent (body : Bytes) : ServerResponse := ⟨true, false, [body]⟩

/-- On an open connection a JSON value is written. -/
theorem runOn_writeJson {t : Tree} (ht : t.KeysNodup) (requestId : JsString) :
    (writeJson t).runOn ⟨requestId, .fresh⟩ =
      (.ok ⟨⟩, ⟨requestId, .sent (encodeUtf8 t.text)⟩) := by
  have hstringify := stringify_of_denotes (Graph.ofTree_denotes ht)
  unfold writeJson
  rw [runOn_get]
  simp only [ServerResponse.fresh, Bool.or_false, Bool.false_eq_true, if_false, hstringify]
  rfl

end

/-! ## The reply to a body -/

/-- A request whose body arrives whole. -/
structure WellSent (request : HttpRequest) : Prop where
  method : request.method = js "POST"
  url : request.url = js "/rpc"
  size : request.chunks.flatten.length ≤ maxRequestBytes
  ending : request.ending = .ended

/-- The text of the body. -/
def HttpRequest.text (request : HttpRequest) : JsString := decodeUtf8Lossy request.chunks.flatten

/-- The request id of the body, if it is an object that has one. -/
def HttpRequest.bodyRequestId (request : HttpRequest) : Option JsString :=
  (Json.parse request.text).bind requestIdOf

theorem collectChunks_ok : ∀ {bytes : Nat} {chunks : List Bytes},
    bytes + chunks.flatten.length ≤ maxRequestBytes → collectChunks bytes chunks = .ok chunks.flatten
  | _, [], _ => rfl
  | bytes, chunk :: rest, h => by
      rw [List.flatten_cons, List.length_append, ← Nat.add_assoc] at h
      have hchunk : ¬ maxRequestBytes < bytes + chunk.length := by omega
      rw [collectChunks, if_neg hchunk, collectChunks_ok h]
      rfl

theorem WellSent.readRequestBody {request : HttpRequest} (h : WellSent request) :
    readRequestBody request = .ok request.text := by
  have hchunks : collectChunks 0 request.chunks = .ok request.chunks.flatten :=
    collectChunks_ok (by simpa using h.size)
  unfold Daemon.readRequestBody
  rw [hchunks, h.ending]
  rfl

section
variable (engine : Engine) (L : Lengths) (services : Services) (now : Int)

/-- What a parsed body is answered with. -/
def outcomeOf (decoded : Graph) : Except RpcError JsonTree :=
  match unsupportedVersionOf decoded with
  | some requested => .error (unsupportedSchemaVersion requested)
  | none =>
      match parseRpcRequest L decoded with
      | .error e => .error (Thrown.error e.message).rpcError
      | .ok rpcRequest =>
          if expired rpcRequest.deadlineUnixMs now then .error deadlineExceeded
          else (dispatchRpc services rpcRequest).mapError Thrown.rpcError

/-- What a body is answered with. -/
def outcomeOfText (text : JsString) : Except RpcError JsonTree :=
  match Json.parse text with
  | none => .error (Thrown.error (engine.syntaxMessage text)).rpcError
  | some decoded => outcomeOf L services now decoded

end

/-- The object of a reply. -/
def replyTree (requestId : JsString) : Except RpcError JsonTree → Tree
  | .ok result => successTree requestId result
  | .error e => failureTree requestId e

theorem replyTree_nodup (requestId : JsString) (outcome : Except RpcError JsonTree) :
    (replyTree requestId outcome).KeysNodup := by
  cases outcome with
  | ok result => exact envelopeTree_nodup (.inl rfl) result.nodup
  | error e => exact envelopeTree_nodup (.inr rfl) e.nodup

theorem runOn_writeRpcError (requestId requestId' : JsString) (e : RpcError) :
    (writeRpcError requestId e).runOn ⟨requestId', .fresh⟩ = (.ok ⟨⟩,
      ⟨requestId', .sent (encodeUtf8 (replyTree requestId (.error e)).text)⟩) :=
  runOn_writeJson (replyTree_nodup requestId (.error e)) requestId'

theorem runOn_writeRpcSuccess (requestId requestId' : JsString) (result : JsonTree) :
    (writeRpcSuccess requestId result).runOn ⟨requestId', .fresh⟩ = (.ok ⟨⟩,
      ⟨requestId', .sent (encodeUtf8 (replyTree requestId (.ok result)).text)⟩) :=
  runOn_writeJson (replyTree_nodup requestId (.ok result)) requestId'

/-- The request id of an accepted request is the one of its body. -/
theorem requestIdOf_of_parse {L : Lengths} {decoded : Graph} {rpcRequest : RpcRequest}
    (h : parseRpcRequest L decoded = .ok rpcRequest) :
    requestIdOf decoded = some rpcRequest.requestId := by
  have hchecked : RpcRequestSchema.check L decoded = true ∧ rpcRequest = .ofGraph decoded := by
    unfold parseRpcRequest parseSchema at h
    split at h
    · cases h
    · rename_i hchecks
      simp only [Bool.or_eq_true, Bool.not_eq_true', not_or, Bool.not_eq_false] at hchecks
      exact ⟨hchecks.2, (Except.ok.inj h).symm⟩
  obtain ⟨hcheck, rfl⟩ := hchecked
  unfold RpcRequestSchema.check at hcheck
  split at hcheck
  · cases hcheck
  rename_i entries hentries
  simp only [Bool.and_eq_true] at hcheck
  obtain ⟨⟨⟨⟨⟨⟨-, hid⟩, -⟩, -⟩, -⟩, -⟩, -⟩ := hcheck
  have hproperty := property_of_entries hentries (js "requestId")
  unfold required at hid
  obtain ⟨v, hlookup, hstring⟩ := (Option.any_eq_true _ _).mp hid
  rw [hlookup, Option.getD_some] at hproperty
  cases v with
  | string s =>
      obtain ⟨hpos, -⟩ := checkString_short.mp hstring
      have hne : s ≠ [] := by
        rintro rfl
        exact absurd (hpos.trans (L.le [])) (by decide)
      simp only [requestIdOf, RpcRequest.ofGraph, hproperty, stringOf, if_neg hne]
  | _ => cases hstring

theorem parseRpcRequest_message {L : Lengths} {decoded : Graph} {e : JsError}
    (h : parseRpcRequest L decoded = .error e) : e.message ≠ [] := by
  unfold parseRpcRequest parseSchema at h
  split at h
  · obtain rfl := Except.error.inj h
    decide
  · cases h

section
variable {engine : Engine} {L : Lengths} {services : Services} {now : Int} {request : HttpRequest}

theorem replies_of_run (hmethod : request.method = js "POST") (hurl : request.url = js "/rpc")
    {outcome : Except Thrown PUnit} {s : HandlerState}
    (hrun : (handleBody engine L services now request).runOn ⟨js "unparsed", .fresh⟩ =
      (outcome, s)) :
    (∀ a, outcome = .ok a → replies engine L services now request = s.response.bodies) ∧
    (∀ e, outcome = .error e → s.response = .fresh → replies engine L services now request =
      [encodeUtf8 (replyTree s.requestId (.error e.rpcError)).text]) := by
  have hhandle : ¬ (request.method ≠ js "POST" ∨ request.url ≠ js "/rpc") := by
    simp [hmethod, hurl]
  have hreplies : replies engine L services now request =
      ((tryCatch (handleBody engine L services now request) fun error => do
        let state ← get
        writeRpcError state.requestId error.rpcError : Handler PUnit).runOn
          ⟨js "unparsed", .fresh⟩).2.response.bodies := by
    unfold replies handleHttpRequest
    rw [if_neg hhandle]
    rfl
  rw [hreplies, runOn_tryCatch, hrun]
  refine ⟨?_, ?_⟩
  · rintro a rfl
    rfl
  · rintro e rfl hfresh
    obtain ⟨requestId, response⟩ := s
    obtain rfl : response = .fresh := hfresh
    dsimp only
    rw [runOn_get, runOn_writeRpcError]
    rfl

/-- A body that cannot be read is answered with the reason. -/
theorem replies_unread (hmethod : request.method = js "POST") (hurl : request.url = js "/rpc")
    {e : Thrown} (hread : readRequestBody request = .error e) :
    replies engine L services now request =
      [encodeUtf8 (replyTree (js "unparsed") (.error e.rpcError)).text] := by
  have hrun : (handleBody engine L services now request).runOn ⟨js "unparsed", .fresh⟩ =
      (.error e, ⟨js "unparsed", .fresh⟩) := by
    unfold handleBody
    exact runOn_ofDispatch_error hread _
  exact (replies_of_run hmethod hurl hrun).2 _ rfl rfl

theorem runOn_handleBody (hsent : WellSent request) {decoded : Graph}
    (hparse : Json.parse request.text = some decoded) (s : HandlerState) :
    (handleBody engine L services now request).runOn s =
      (answerDecoded L services now decoded).runOn s := by
  unfold handleBody
  rw [runOn_ofDispatch_ok hsent.readRequestBody, runOn_ofDispatch_ok (by rw [parseBody, hparse])]

/-- The one body that is written. -/
theorem replies_eq (hsent : WellSent request) : replies engine L services now request =
    [encodeUtf8 (replyTree (request.bodyRequestId.getD (js "unparsed"))
      (outcomeOfText engine L services now request.text)).text] := by
  have hended {outcome : Except Thrown PUnit} {s : HandlerState} :=
    @replies_of_run engine L services now request hsent.method hsent.url outcome s
  unfold HttpRequest.bodyRequestId outcomeOfText
  cases hparse : Json.parse request.text with
  | none =>
      have hrun : (handleBody engine L services now request).runOn ⟨js "unparsed", .fresh⟩ =
          (.error (.error (engine.syntaxMessage request.text)), ⟨js "unparsed", .fresh⟩) := by
        unfold handleBody
        rw [runOn_ofDispatch_ok hsent.readRequestBody]
        exact runOn_ofDispatch_error (by rw [parseBody, hparse]) _
      exact (hended hrun).2 _ rfl rfl
  | some decoded =>
      have hrun := @runOn_handleBody engine L services now request hsent _ hparse
        ⟨js "unparsed", .fresh⟩
      unfold answerDecoded at hrun
      rw [runOn_modify, runOn_get] at hrun
      unfold outcomeOf
      dsimp only [Option.bind_some] at hrun ⊢
      cases hversion : unsupportedVersionOf decoded with
      | some requested =>
          rw [hversion] at hrun
          exact (hended (hrun.trans (runOn_writeRpcError _ _ _))).1 _ rfl
      | none =>
          rw [hversion] at hrun
          cases hrequest : parseRpcRequest L decoded with
          | error e =>
              rw [runOn_ofDispatch_error (by rw [hrequest]; rfl)] at hrun
              exact (hended hrun).2 _ rfl rfl
          | ok rpcRequest =>
              rw [requestIdOf_of_parse hrequest, Option.getD_some] at hrun ⊢
              rw [runOn_ofDispatch_ok (by rw [hrequest]; rfl)] at hrun
              unfold answerRequest at hrun
              rw [runOn_modify] at hrun
              dsimp only at hrun ⊢
              cases hexpired : expired rpcRequest.deadlineUnixMs now with
              | true =>
                  rw [hexpired, if_pos rfl] at hrun
                  exact (hended (hrun.trans (runOn_writeRpcError _ _ _))).1 _ rfl
              | false =>
                  rw [hexpired, if_neg Bool.false_ne_true] at hrun
                  cases hdispatch : dispatchRpc services rpcRequest with
                  | error e =>
                      rw [runOn_ofDispatch_error hdispatch] at hrun
                      exact (hended hrun).2 _ rfl rfl
                  | ok result =>
                      rw [runOn_ofDispatch_ok hdispatch] at hrun
                      exact (hended (hrun.trans (runOn_writeRpcSuccess _ _ _))).1 _ rfl

end

/-! ## Valid replies -/

/-- The client accepts the reply, and it is for the request id of the body. -/
def ValidReply (L : Lengths) (request : HttpRequest) (replies : List Bytes) : Prop :=
  ∃ body requestId, replies = [body] ∧ AcceptedAs L body requestId ∧
    ∀ id, request.bodyRequestId = some id → requestId = id

/-- The request is dispatched. -/
def Dispatches (L : Lengths) (now : Int) (request : HttpRequest) (rpcRequest : RpcRequest) : Prop :=
  ∃ decoded, Json.parse request.text = some decoded ∧ unsupportedVersionOf decoded = none ∧
    parseRpcRequest L decoded = .ok rpcRequest ∧ expired rpcRequest.deadlineUnixMs now = false

/-- What the client needs of an error. -/
def Sayable (L : Lengths) (e : RpcError) : Prop := ShortString L e.code ∧ 1 ≤ L.length e.message

theorem one_le_length {L : Lengths} {s : JsString} : 1 ≤ L.length s ↔ s ≠ [] := by
  refine ⟨?_, L.pos s⟩
  rintro hpos rfl
  exact absurd (hpos.trans (L.le [])) (by decide)

section
variable {engine : Engine} {L : Lengths} {services : Services} {now : Int} {request : HttpRequest}

/-- A request that is dispatched is answered with what the dispatch ends with;
any other with an error that says why. -/
theorem outcomeOfText_cases :
    (∃ rpcRequest, (∀ r, Dispatches L now request r ↔ r = rpcRequest) ∧
      outcomeOfText engine L services now request.text =
        (dispatchRpc services rpcRequest).mapError Thrown.rpcError) ∨
    ((∀ r, ¬ Dispatches L now request r) ∧
      ∃ e, outcomeOfText engine L services now request.text = .error e ∧ Sayable L e) := by
  unfold outcomeOfText
  cases hparse : Json.parse request.text with
  | none =>
      refine .inr ⟨?_, _, rfl, code_invalid.1.short, L.pos _ (engine.ne_nil _)⟩
      rintro r ⟨decoded, hdecoded, -⟩
      rw [hparse] at hdecoded
      cases hdecoded
  | some decoded =>
      have hdecoded : ∀ {d}, Json.parse request.text = some d → d = decoded := fun h =>
        Option.some.inj (h.symm.trans hparse)
      unfold outcomeOf
      dsimp only
      cases hversion : unsupportedVersionOf decoded with
      | some requested =>
          have hcode : Code (js "UNSUPPORTED_SCHEMA_VERSION") := ⟨by decide, by decide⟩
          refine .inr ⟨?_, _, rfl, hcode.short, L.pos _ (List.append_ne_nil_of_right_ne_nil _
            (by decide))⟩
          rintro r ⟨d, hd, hnone, -⟩
          rw [hdecoded hd, hversion] at hnone
          cases hnone
      | none =>
          cases hrequest : parseRpcRequest L decoded with
          | error e =>
              have hmessage : e.message ≠ [] := parseRpcRequest_message hrequest
              refine .inr ⟨?_, _, rfl, code_invalid.1.short, L.pos _ hmessage⟩
              rintro r ⟨d, hd, -, hr, -⟩
              rw [hdecoded hd, hrequest] at hr
              cases hr
          | ok rpcRequest =>
              dsimp only
              cases hexpired : expired rpcRequest.deadlineUnixMs now with
              | true =>
                  have hcode : Code (js "TIMEOUT") := ⟨by decide, by decide⟩
                  refine .inr ⟨?_, _, rfl, hcode.short, L.pos _ (by decide)⟩
                  rintro r ⟨d, hd, -, hr, hnot⟩
                  rw [hdecoded hd, hrequest] at hr
                  rw [← Except.ok.inj hr, hexpired] at hnot
                  cases hnot
              | false =>
                  refine .inl ⟨rpcRequest, fun r => ⟨?_, ?_⟩, rfl⟩
                  · rintro ⟨d, hd, -, hr, -⟩
                    rw [hdecoded hd, hrequest] at hr
                    exact (Except.ok.inj hr).symm
                  · rintro rfl
                    exact ⟨decoded, hparse, hversion, hrequest, hexpired⟩

theorem bodyRequestId_ne_nil {id : JsString} (h : request.bodyRequestId = some id) : id ≠ [] := by
  obtain ⟨decoded, -, hid⟩ := Option.bind_eq_some_iff.mp h
  unfold requestIdOf at hid
  split at hid
  · split at hid
    · cases hid
    · rename_i hne
      exact Option.some.inj hid ▸ hne
  · cases hid

theorem shortString_bodyRequestId :
    ShortString L (request.bodyRequestId.getD (js "unparsed")) ↔
      ∀ id, request.bodyRequestId = some id → L.length id ≤ 128 := by
  have hunparsed : Code (js "unparsed") := ⟨by decide, by decide⟩
  cases hid : request.bodyRequestId with
  | none => exact ⟨fun _ id h => (by cases h), fun _ => hunparsed.short⟩
  | some id =>
      refine ⟨?_, fun h => ⟨L.pos _ (bodyRequestId_ne_nil hid), h id rfl⟩⟩
      rintro hshort _ ⟨⟩
      exact hshort.2

/-- A reply is valid when the client accepts the request id and the error. -/
theorem validReply_replyTree (outcome : Except RpcError JsonTree) :
    ValidReply L request
        [encodeUtf8 (replyTree (request.bodyRequestId.getD (js "unparsed")) outcome).text] ↔
      (∀ id, request.bodyRequestId = some id → L.length id ≤ 128) ∧
      ∀ e, outcome = .error e → Sayable L e := by
  have hid : ∀ id, request.bodyRequestId = some id →
      request.bodyRequestId.getD (js "unparsed") = id := by
    intro id h
    rw [h, Option.getD_some]
  rw [← shortString_bodyRequestId]
  cases outcome with
  | ok result =>
      constructor
      · rintro ⟨body, requestId, hbody, haccepted, -⟩
        rw [← List.singleton_inj.mp hbody] at haccepted
        exact ⟨(accepted_success.mp haccepted).2, fun e he => by cases he⟩
      · rintro ⟨hshort, -⟩
        exact ⟨_, _, rfl, accepted_success.mpr ⟨rfl, hshort⟩, hid⟩
  | error e =>
      constructor
      · rintro ⟨body, requestId, hbody, haccepted, -⟩
        rw [← List.singleton_inj.mp hbody] at haccepted
        obtain ⟨-, hshort, hsayable⟩ := accepted_failure.mp haccepted
        exact ⟨hshort, fun e' he => Except.error.inj he ▸ hsayable⟩
      · rintro ⟨hshort, hsayable⟩
        exact ⟨_, _, rfl, accepted_failure.mpr ⟨rfl, hshort, hsayable e rfl⟩, hid⟩

/-- The reply to a body of at most `maxRequestBytes` bytes is valid just when
the request id is short enough and no error that the operation throws has an
empty message. -/
theorem reply_accepted (hsent : WellSent request) :
    ValidReply L request (replies engine L services now request) ↔
      (∀ id, request.bodyRequestId = some id → L.length id ≤ 128) ∧
      ∀ rpcRequest thrown, Dispatches L now request rpcRequest →
        dispatchRpc services rpcRequest = .error thrown → thrown.rpcError.message ≠ [] := by
  rw [replies_eq hsent, validReply_replyTree]
  refine and_congr_right fun _ => ?_
  obtain ⟨rpcRequest, hdispatches, houtcome⟩ | ⟨hnone, e, houtcome, hsayable⟩ :=
    @outcomeOfText_cases engine L services now request
  · rw [houtcome]
    cases hdispatch : dispatchRpc services rpcRequest with
    | ok result =>
        refine ⟨fun _ r thrown hr hthrown => ?_, fun _ e he => by cases he⟩
        rw [(hdispatches r).mp hr, hdispatch] at hthrown
        cases hthrown
    | error thrown =>
        have hcode := dispatchRpc_coded services rpcRequest thrown hdispatch
        constructor
        · intro h r thrown' hr hthrown
          rw [(hdispatches r).mp hr, hdispatch] at hthrown
          obtain rfl := Except.error.inj hthrown
          exact one_le_length.mp (h _ rfl).2
        · intro h e he
          obtain rfl := Except.error.inj he
          exact ⟨hcode.1.short, L.pos _ (h rpcRequest thrown ((hdispatches _).mpr rfl) hdispatch)⟩
  · refine ⟨fun _ r _ hr => absurd hr (hnone r), fun _ e' he => ?_⟩
    exact Except.error.inj (houtcome.symm.trans he) ▸ hsayable

end

/-- Strings measured in code units. -/
def codeUnits : Lengths := .codeUnits

/-- A daemon that is ready, with no workspace. -/
def idle : Services where
  isReady := true
  instanceId := js "daemon_1"
  integrityCheck := .ok (js "ok")
  getOperation _ := .ok none
  openWorkspace _ := .error (.error (.error (js "no workspace")))
  getWorkspace _ := .ok none
  read _ := .error (.error (.error (js "no workspace")))
  list _ := .error (.error (.error (js "no workspace")))
  search _ := .error (.error (.error (js "no workspace")))
  write _ := .error (.error (.error (js "no workspace")))
  patch _ := .error (.error (.error (js "no workspace")))
  resolve _ := .error (.error (.error (js "no workspace")))
  listSkills _ := .error (.error (.error (js "no workspace")))
  readSkill _ := .error (.error (.error (js "no workspace")))

def plainEngine : Engine := ⟨fun _ => js "Unexpected token", fun _ => by decide⟩

/-- A request to the RPC endpoint with this body. -/
def post (body : String) : HttpRequest :=
  ⟨js "POST", js "/rpc", [encodeUtf8 (js body)], .ended⟩

/-- `workspace.open`, which this daemon fails. -/
def opening : HttpRequest :=
  post ("\x7b\"requestId\":\"req_1\",\"method\":\"workspace.open\",\"params\":" ++
    "\x7b\"path\":\"/r\"\x7d,\"schemaVersion\":1\x7d")

theorem reply_accepted_opening :
    (∃ rpcRequest thrown, Dispatches codeUnits 0 opening rpcRequest ∧
      dispatchRpc idle rpcRequest = .error thrown) ∧
    opening.bodyRequestId = some (js "req_1") ∧
    ValidReply codeUnits opening (replies plainEngine codeUnits idle 0 opening) := by
  have hsent : WellSent opening := ⟨rfl, rfl, by decide +kernel, rfl⟩
  have hid : opening.bodyRequestId = some (js "req_1") := by decide +kernel
  have hsupported : (Json.parse opening.text).map unsupportedVersionOf = some none := by
    decide +kernel
  have hanswer : (Json.parse opening.text).map (fun decoded =>
      ((parseRpcRequest codeUnits decoded).toOption.map fun r => (expired r.deadlineUnixMs 0,
        ((dispatchRpc idle r).map fun _ => ()).mapError fun e => e.rpcError.message))) =
      some (some (false, .error (js "no workspace"))) := by
    decide +kernel
  obtain ⟨decoded, hdecoded, hversion⟩ := Option.map_eq_some_iff.mp hsupported
  rw [hdecoded, Option.map_some] at hanswer
  cases hparse : parseRpcRequest codeUnits decoded with
  | error e =>
      rw [hparse] at hanswer
      cases hanswer
  | ok rpcRequest =>
      rw [hparse] at hanswer
      obtain ⟨hexpired, hmessage⟩ := Prod.mk.inj (Option.some.inj (Option.some.inj hanswer))
      cases hdispatch : dispatchRpc idle rpcRequest with
      | ok result =>
          rw [hdispatch] at hmessage
          cases hmessage
      | error thrown =>
          rw [hdispatch] at hmessage
          refine ⟨⟨rpcRequest, thrown, ⟨decoded, hdecoded, hversion, hparse, hexpired⟩, hdispatch⟩,
            hid, (reply_accepted hsent).mpr ⟨fun id h => ?_, fun r thrown' hr hthrown => ?_⟩⟩
          · obtain rfl := Option.some.inj (hid.symm.trans h)
            decide
          · obtain ⟨decoded', hdecoded', -, hparse', -⟩ := hr
            obtain rfl := Option.some.inj (hdecoded.symm.trans hdecoded')
            obtain rfl := Except.ok.inj (hparse.symm.trans hparse')
            obtain rfl := Except.error.inj (hdispatch.symm.trans hthrown)
            have hsaid : thrown.rpcError.message = js "no workspace" := Except.error.inj hmessage
            rw [hsaid]
            decide

/-- A body with a request id of 129 characters. -/
def longId : HttpRequest :=
  post ("\x7b\"requestId\":\"" ++ String.ofList (List.replicate 129 'a') ++ "\"\x7d")

theorem reply_accepted_long :
    ¬ ValidReply codeUnits longId (replies plainEngine codeUnits idle 0 longId) := by
  have hsent : WellSent longId := ⟨rfl, rfl, by decide +kernel, rfl⟩
  have hid : longId.bodyRequestId = some (List.replicate 129 (ch 'a')) := by decide +kernel
  rw [replies_eq hsent, validReply_replyTree]
  rintro ⟨hshort, -⟩
  exact absurd (hshort _ hid) (by decide +kernel)

end Benchhand.Daemon
