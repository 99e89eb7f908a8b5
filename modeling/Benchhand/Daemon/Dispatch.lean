/-
Benchhand.Daemon.Dispatch — dispatchRpc.

A method reads its params and calls a service. What the services do is not in
this module: `Services` has what each call of them ends with. An error of a
service whose class the daemon knows becomes a DispatchError; every other
exception goes through.
-/
import Benchhand.Instructions.Error
import Benchhand.Operations.Journal
import Benchhand.Rpc.Results
import Benchhand.Workspace.Call

namespace Benchhand.Daemon

open Text Js Contracts Rpc

/-! ## Errors -/

/-- What a request ends with when it throws. -/
inductive Thrown where
  /-- `DispatchError`. -/
  | dispatch (e : RpcError)
  /-- Another Error, by its message. -/
  | error (message : JsString)
  /-- A value that is no Error. -/
  | other

abbrev Dispatch := Except Thrown

/-- `throw new DispatchError({ code, message, retryable: false })`. -/
def reject {α : Type} (code : String) (message : JsString) : Dispatch α :=
  .error (.dispatch ⟨js code, message, false, none⟩)

/-- `throw new DispatchError({ code: 'INVALID_REQUEST', ... })`. -/
def invalid {α : Type} (message : JsString) : Dispatch α := reject "INVALID_REQUEST" message

/-- What a function of the contracts package throws goes through. -/
def ofContracts {α : Type} (r : Except JsError α) : Dispatch α :=
  r.mapError fun e => .error e.message

/-- `error.code` of a FilesystemError. -/
def filesystemCode : Filesystem.ErrorCode → String
  | .invalidRequest => "INVALID_REQUEST"
  | .invalidPath => "INVALID_PATH"
  | .invalidCursor => "INVALID_CURSOR"
  | .workspaceNotFound => "WORKSPACE_NOT_FOUND"
  | .workspaceUnavailable => "WORKSPACE_UNAVAILABLE"
  | .pathOutsideWorkspace => "PATH_OUTSIDE_WORKSPACE"
  | .pathNotFound => "PATH_NOT_FOUND"
  | .pathInaccessible => "PATH_INACCESSIBLE"
  | .pathNotFile => "PATH_NOT_FILE"
  | .pathNotDirectory => "PATH_NOT_DIRECTORY"
  | .pathSymlinkUnsupported => "PATH_SYMLINK_UNSUPPORTED"
  | .fileTooLarge => "FILE_TOO_LARGE"
  | .filesystemFailure => "FILESYSTEM_FAILURE"
  | .writeTooLarge => "WRITE_TOO_LARGE"
  | .writeConflict => "WRITE_CONFLICT"
  | .writeFailed => "WRITE_FAILED"
  | .patchTooLarge => "PATCH_TOO_LARGE"
  | .patchBinaryUnsupported => "PATCH_BINARY_UNSUPPORTED"
  | .patchConflict => "PATCH_CONFLICT"
  | .patchFailed => "PATCH_FAILED"

/-- The properties of the details of a FilesystemError. -/
def detailsFields : Filesystem.Details → List (String × JsonTree)
  | .expectedTextNotFound editIndex =>
      [("reason", .string (js "expected_text_not_found")), ("editIndex", .nat editIndex),
        ("matchCount", .nat 0)]
  | .ambiguousMatch editIndex matchCount =>
      [("reason", .string (js "ambiguous_match")), ("editIndex", .nat editIndex),
        ("matchCount", .nat matchCount)]
  | .overlappingEdits editIndex conflictsWithEditIndex =>
      [("reason", .string (js "overlapping_edits")), ("editIndex", .nat editIndex),
        ("conflictsWithEditIndex", .nat conflictsWithEditIndex)]
  | .sha256Mismatch expectedSha256 actualSha256 =>
      [("reason", .string (js "sha256_mismatch")), ("expectedSha256", .string expectedSha256),
        ("actualSha256", orNullString actualSha256)]

theorem detailsFields_nodup (path : JsonTree) (details : Filesystem.Details) :
    (("path", path) :: detailsFields details).map Prod.fst |>.Nodup := by
  cases details <;> simp [detailsFields]

/-- `mergeFilesystemErrorDetails(error)`; the details are always an object. -/
def mergeFilesystemErrorDetails (e : Filesystem.FilesystemError) : Option JsonTree :=
  match e.path, e.details with
  | none, none => none
  | none, some details =>
      some (objectOf (detailsFields details) (List.nodup_cons.mp (detailsFields_nodup .null details)).2)
  | some path, none => some (objectOf [("path", .string path)] (by simp))
  | some path, some details =>
      some (objectOf (("path", .string path) :: detailsFields details)
        (detailsFields_nodup (.string path) details))

/-- `dispatchFilesystem(operation)`. -/
def dispatchFilesystem {α : Type} (json : α → JsonTree) (outcome : Except Filesystem.Thrown α) :
    Dispatch JsonTree :=
  match outcome with
  | .ok result => .ok (json result)
  | .error (.filesystem e) =>
      .error (.dispatch
        { code := js (filesystemCode e.code), message := e.message
          retryable := e.code = .pathInaccessible
          details := mergeFilesystemErrorDetails e })
  | .error (.errno e) => .error (.error e.message)
  | .error (.error e) => .error (.error e.message)

/-- `dispatchInstructions(operation)`. -/
def dispatchInstructions {α : Type} (json : α → JsonTree)
    (outcome : Except Instructions.Thrown α) : Dispatch JsonTree :=
  match outcome with
  | .ok result => .ok (json result)
  | .error (.instructions e) =>
      .error (.dispatch
        { code := js e.code.text, message := e.message
          retryable := e.code = .scopeInaccessible ∨ e.code = .instructionInaccessible ∨
            e.code = .instructionChangedDuringRead ∨ e.code = .skillInaccessible
          details := e.path.map fun path => objectOf [("path", .string path)] (by simp) })
  | .error (.errno e) => .error (.error e.message)
  | .error (.error e) => .error (.error e.message)

/-! ## Params -/

/-- `readParamsObject(params, method)`, as the properties of the object. -/
def readParamsObject (params : Graph) (method : String) : Dispatch (List (JsString × Value)) :=
  match entriesOf params.heap params.root with
  | some entries => .ok entries
  | none => invalid (js method ++ js " requires object params")

/-- `readRequiredString(value, label)`. -/
def readRequiredString (value : Option Value) (label : String) : Dispatch JsString :=
  match value with
  | some (.string s) => .ok s
  | _ => invalid (js label ++ js " must be a string")

/-- `readWorkspaceIdValue(value, method)`. -/
def readWorkspaceIdValue (value : Option Value) (method : String) : Dispatch JsString :=
  match value with
  | some (.string s) => ofContracts (parseEntityId "workspace" s)
  | _ => invalid (js method ++ js " requires params.workspaceId")

/-- `optionalString(value, key)`. -/
def optionalString (entries : List (JsString × Value)) (key : String) :
    Dispatch (Option JsString) :=
  match entries.lookup (js key) with
  | none | some .undefined => .ok none
  | some (.string s) => .ok (some s)
  | some _ => invalid (js key ++ js " must be a string")

/-- `optionalNumber(value, key)`. -/
def optionalNumber (entries : List (JsString × Value)) (key : String) :
    Dispatch (Option Number) :=
  match entries.lookup (js key) with
  | none | some .undefined => .ok none
  | some (.number n) => .ok (some n)
  | some _ => invalid (js key ++ js " must be a number")

def readFileReadParams (params : Graph) : Dispatch Filesystem.ReadRequest := do
  let value ← readParamsObject params "file.read"
  let workspaceId ← readWorkspaceIdValue (value.lookup (js "workspaceId")) "file.read"
  let path ← readRequiredString (value.lookup (js "path")) "file.read params.path"
  let offset ← optionalNumber value "offset"
  let maxBytes ← optionalNumber value "maxBytes"
  return { workspaceId, path, offset, maxBytes }

def readFileListParams (params : Graph) : Dispatch Filesystem.ListRequest := do
  let value ← readParamsObject params "file.list"
  let workspaceId ← readWorkspaceIdValue (value.lookup (js "workspaceId")) "file.list"
  let path ← optionalString value "path"
  let limit ← optionalNumber value "limit"
  let cursor ← optionalString value "cursor"
  return { workspaceId, path, limit, cursor }

def readFileSearchParams (params : Graph) : Dispatch Filesystem.SearchRequest := do
  let value ← readParamsObject params "file.search"
  let workspaceId ← readWorkspaceIdValue (value.lookup (js "workspaceId")) "file.search"
  let path ← optionalString value "path"
  let glob ← optionalString value "glob"
  let query ← optionalString value "query"
  let maxResults ← optionalNumber value "maxResults"
  let maxBytes ← optionalNumber value "maxBytes"
  let maxDepth ← optionalNumber value "maxDepth"
  let maxFileBytes ← optionalNumber value "maxFileBytes"
  return { workspaceId, path, glob, query, maxResults, maxBytes, maxDepth, maxFileBytes }

/-- The property `expectedSha256` of a write. -/
def readExpectedSha256 (value : Option Value) : Dispatch (Option (Option JsString)) :=
  match value with
  | none => .ok none
  | some .null => .ok (some none)
  | some (.string s) => .ok (some (some s))
  | some _ => invalid (js "file.write params.expectedSha256 must be a string or null")

def readFileWriteParams (params : Graph) : Dispatch Filesystem.WriteRequest := do
  let value ← readParamsObject params "file.write"
  let workspaceId ← readWorkspaceIdValue (value.lookup (js "workspaceId")) "file.write"
  let path ← readRequiredString (value.lookup (js "path")) "file.write params.path"
  let content ← readRequiredString (value.lookup (js "content")) "file.write params.content"
  let expectedSha256 ← readExpectedSha256 (value.lookup (js "expectedSha256"))
  return { workspaceId, path, content, expectedSha256 }

/-- The callback of `edits.map`. -/
def readFilePatchEdit (h : Heap) (edit : Value) (index : Nat) : Dispatch Filesystem.PatchEdit :=
  let entries := (entriesOf h edit).getD []
  match entries.lookup (js "oldText"), entries.lookup (js "newText") with
  | some (.string oldText), some (.string newText) => .ok { oldText, newText }
  | _, _ =>
      invalid (js "file.patch params.edits[" ++ Filesystem.decimal index ++
        js "] must contain string oldText and newText")

/-- The elements of an array; it has no holes, as it comes from JSON. -/
def itemsOf (h : Heap) : Value → Option (List Value)
  | .object r =>
      match h.objs[r]? with
      | some (.array items) => some (items.filterMap id)
      | _ => none
  | _ => none

/-- The property `edits` of a patch. -/
def readFilePatchEdits (h : Heap) (value : Option Value) : Dispatch (List Filesystem.PatchEdit) :=
  match value.bind (itemsOf h) with
  | some items => items.zipIdx.mapM fun (edit, index) => readFilePatchEdit h edit index
  | none => invalid (js "file.patch params.edits must be an array")

def readFilePatchParams (params : Graph) : Dispatch Filesystem.PatchRequest := do
  let value ← readParamsObject params "file.patch"
  let workspaceId ← readWorkspaceIdValue (value.lookup (js "workspaceId")) "file.patch"
  let path ← readRequiredString (value.lookup (js "path")) "file.patch params.path"
  let expectedSha256 ← readRequiredString (value.lookup (js "expectedSha256"))
    "file.patch params.expectedSha256"
  let edits ← readFilePatchEdits params.heap (value.lookup (js "edits"))
  return { workspaceId, path, expectedSha256, edits }

structure ResolveRequest where
  workspaceId : JsString
  scopePath : Option JsString

def readInstructionsResolveParams (params : Graph) : Dispatch ResolveRequest := do
  let value ← readParamsObject params "instructions.resolve"
  let workspaceId ← readWorkspaceIdValue (value.lookup (js "workspaceId")) "instructions.resolve"
  match value.lookup (js "scopePath") with
  | none | some .undefined => return { workspaceId, scopePath := none }
  | some (.string scopePath) => return { workspaceId, scopePath }
  | some _ => invalid (js "instructions.resolve params.scopePath must be a string")

def readSkillsListParams (params : Graph) : Dispatch JsString := do
  let value ← readParamsObject params "skills.list"
  readWorkspaceIdValue (value.lookup (js "workspaceId")) "skills.list"

structure SkillsReadRequest where
  workspaceId : JsString
  skillId : JsString

def readSkillsReadParams (params : Graph) : Dispatch SkillsReadRequest := do
  let value ← readParamsObject params "skills.read"
  let workspaceId ← readWorkspaceIdValue (value.lookup (js "workspaceId")) "skills.read"
  match value.lookup (js "skillId") with
  | some (.string skillId) =>
      if skillId = [] then invalid (js "skills.read requires params.skillId")
      else return { workspaceId, skillId }
  | _ => invalid (js "skills.read requires params.skillId")

structure WorkspaceOpenParams where
  path : JsString
  mode : WorkspaceMode
  baseRef : Option JsString

/-- A string of `workspace.open` that must not be empty. -/
def readNonEmpty (value : Value) (message : String) : Dispatch JsString :=
  match value with
  | .string s => if s = [] then invalid (js message) else .ok s
  | _ => invalid (js message)

/-- The property `mode`. -/
def readWorkspaceMode (value : Value) : Dispatch WorkspaceMode :=
  if value = .undefined ∨ value = .string (js "checkout") then .ok .checkout
  else if value = .string (js "worktree") then .ok .worktree
  else invalid (js "workspace.open params.mode must be checkout or worktree")

/-- The property `baseRef`. -/
def readBaseRef (value : Value) : Dispatch (Option JsString) :=
  if value = .undefined then .ok none
  else some <$> readNonEmpty value "workspace.open params.baseRef must be a non-empty string"

def readWorkspaceOpenParams (params : Graph) : Dispatch WorkspaceOpenParams := do
  let field := fun name => params.heap.property params.root (js name)
  let path ← readNonEmpty (field "path") "workspace.open requires params.path"
  let mode ← readWorkspaceMode (field "mode")
  let baseRef ← readBaseRef (field "baseRef")
  if mode ≠ .worktree ∧ baseRef.isSome then
    invalid (js "workspace.open params.baseRef requires worktree mode")
  else return { path, mode, baseRef }

def readWorkspaceIdParam (params : Graph) : Dispatch JsString :=
  match params.heap.property params.root (js "workspaceId") with
  | .string s => ofContracts (parseEntityId "workspace" s)
  | _ => invalid (js "workspace.get requires params.workspaceId")

def readOperationIdParam (params : Graph) : Dispatch JsString :=
  match params.heap.property params.root (js "operationId") with
  | .string s => ofContracts (parseEntityId "operation" s)
  | _ => invalid (js "operation.get requires params.operationId")

/-! ## Dispatch -/

/-- What the calls of the services end with. -/
structure Services where
  isReady : Bool
  instanceId : JsString
  integrityCheck : Except JsError JsString
  /-- `context.journal.get`, with the record as it is returned. -/
  getOperation : JsString → Except ThrownValue (Option JsonTree)
  openWorkspace : WorkspaceOpenParams → Except Workspace.Thrown WorkspaceRecord
  getWorkspace : JsString → Except Workspace.Thrown (Option WorkspaceRecord)
  read : Filesystem.ReadRequest → Except Filesystem.Thrown Filesystem.ReadResult
  list : Filesystem.ListRequest → Except Filesystem.Thrown Filesystem.ListResult
  search : Filesystem.SearchRequest → Except Filesystem.Thrown Filesystem.SearchResult
  write : Filesystem.WriteRequest → Except Filesystem.Thrown Filesystem.WriteResult
  patch : Filesystem.PatchRequest → Except Filesystem.Thrown Filesystem.PatchResult
  resolve : ResolveRequest → Except Instructions.Thrown Instructions.InstructionsResolveResult
  listSkills : JsString → Except Instructions.Thrown Instructions.SkillsListResult
  readSkill : SkillsReadRequest → Except Instructions.Thrown Instructions.SkillsReadResult

/-- `parseResultEnvelope({ ok: true, result }).result`. -/
def parseResult (result : JsonTree) : Dispatch JsonTree :=
  ofContracts ((parseResultEnvelope (envelope (Graph.ofTree result.tree))).map fun _ => result)

/-- What the journal throws. -/
def ofJournal {α : Type} (r : Except ThrownValue α) : Dispatch α :=
  r.mapError fun
    | .error e => .error e.message
    | .value _ => .other

/-- What the registry throws, and `workspace.open` does not know. -/
def ofRegistry {α : Type} (r : Except Workspace.Thrown α) : Dispatch α :=
  r.mapError fun e => .error e.message

/-- The `catch` of `workspace.open`. -/
def ofRegistryOpen {α : Type} (r : Except Workspace.Thrown α) : Dispatch α :=
  r.mapError fun
    | .registry e =>
        .dispatch
          { code := js e.code.text, message := e.message
            retryable := e.code = .workspacePathInaccessible
            details := some (objectOf [("path", .string e.path)] (by simp)) }
    | e => .error e.message

def dispatchHealth (services : Services) : Dispatch JsonTree := do
  let storageIntegrity ← ofContracts services.integrityCheck
  return objectOf
    [("live", .boolean true), ("ready", .boolean services.isReady),
      ("state", .string (js (if services.isReady then "healthy" else "starting"))),
      ("instanceId", .string services.instanceId), ("rpcSchemaVersion", .nat 1),
      ("storageIntegrity", .string storageIntegrity)]
    (by simp)

def dispatchOperationGet (services : Services) (params : Graph) : Dispatch JsonTree := do
  let operationId ← readOperationIdParam params
  match ← ofJournal (services.getOperation operationId) with
  | none => reject "NOT_FOUND" (js "operation " ++ operationId ++ js " was not found")
  | some record => parseResult record

def dispatchWorkspaceOpen (services : Services) (params : Graph) : Dispatch JsonTree := do
  let request ← readWorkspaceOpenParams params
  let workspace ← ofRegistryOpen (services.openWorkspace request)
  parseResult (workspaceRecordJson workspace)

def dispatchWorkspaceGet (services : Services) (params : Graph) : Dispatch JsonTree := do
  let workspaceId ← readWorkspaceIdParam params
  match ← ofRegistry (services.getWorkspace workspaceId) with
  | none => reject "NOT_FOUND" (js "workspace " ++ workspaceId ++ js " was not found")
  | some workspace => parseResult (workspaceRecordJson workspace)

/-- `dispatchRpc(request, context)`. -/
def dispatchRpc (services : Services) (request : RpcRequest) : Dispatch JsonTree :=
  let params := request.params
  if request.method = js "system.health" then dispatchHealth services
  else if request.method = js "operation.get" then dispatchOperationGet services params
  else if request.method = js "workspace.open" then dispatchWorkspaceOpen services params
  else if request.method = js "workspace.get" then dispatchWorkspaceGet services params
  else if request.method = js "file.read" then do
    dispatchFilesystem readResultJson (services.read (← readFileReadParams params))
  else if request.method = js "file.list" then do
    dispatchFilesystem listResultJson (services.list (← readFileListParams params))
  else if request.method = js "file.search" then do
    dispatchFilesystem searchResultJson (services.search (← readFileSearchParams params))
  else if request.method = js "file.write" then do
    dispatchFilesystem writeResultJson (services.write (← readFileWriteParams params))
  else if request.method = js "file.patch" then do
    dispatchFilesystem patchResultJson (services.patch (← readFilePatchParams params))
  else if request.method = js "instructions.resolve" then do
    dispatchInstructions resolveResultJson
      (services.resolve (← readInstructionsResolveParams params))
  else if request.method = js "skills.list" then do
    dispatchInstructions skillsListResultJson (services.listSkills (← readSkillsListParams params))
  else if request.method = js "skills.read" then do
    dispatchInstructions skillsReadResultJson (services.readSkill (← readSkillsReadParams params))
  else
    reject "METHOD_NOT_FOUND" (js "RPC method " ++ request.method ++ js " is not supported")

end Benchhand.Daemon
