/-
Benchhand.Instructions.Resolve — InstructionsService.resolve.

The scopes of a request are its directory and the ones above it. In each, every
provider contributes documents; two providers are built in and read `CLAUDE.md`
and `AGENTS.md`. A file is read until its metadata are the same before and
behind the read (`readInstructionFile`).
-/
import Benchhand.Instructions.SkillMetadata
import Benchhand.Process.ProgramTheorems
import Mathlib.Data.List.Sort

namespace Benchhand.Instructions

open Text Posix Process Js

/-! ## Requests -/

structure InstructionsResolveRequest where
  workspaceId : JsString
  scopePath : Option JsString
  deriving DecidableEq

abbrev WorkspaceRecord := Filesystem.WorkspaceRecord

def maxScopeDepth : Nat := 128

def maxTotalInstructionBytes : Nat := 1024 * 1024

def maxStableReadAttempts : Nat := 3

/-! ## Paths -/

/-- `normalizeRelativePath(input)`. -/
def normalizeRelativePath (input : JsString) : Except Thrown JsString :=
  if (0 : UInt16) ∈ input then
    .error (.instructions
      { code := .invalidPath, path := none, message := js "scopePath must be a NUL-free string" })
  else if isAbsolute input || win32IsAbsolute input then
    thrown .pathOutsideWorkspace input (js "absolute scope paths are not allowed")
  else
    let portable := input.map fun u => if u = ch '\\' then slash else u
    let segments := (portable.splitOn slash).filter fun s => s ≠ [] && s ≠ dot
    if dotDot ∈ segments then
      thrown .pathOutsideWorkspace input (js "scope path traversal is not allowed")
    else if maxScopeDepth < segments.length then
      thrown .scopeTooDeep input
        (js "instruction scope exceeds " ++ decimal maxScopeDepth ++ js " directory levels")
    else if segments = [] then .ok dot
    else .ok (joinSegments segments)

/-- `buildScopeChain(scopePath)`. -/
def buildScopeChain (scopePath : JsString) : List JsString :=
  if scopePath = dot then [dot]
  else
    let segments := scopePath.splitOn slash
    dot :: (List.range segments.length).map fun index => joinSegments (segments.take (index + 1))

/-- `portableJoin(scopePath, filename)`. -/
def portableJoin (scopePath filename : JsString) : JsString :=
  if scopePath = dot then filename else scopePath ++ slash :: filename

/-- `canonicalWorkspaceRoot(workspace)`. -/
def canonicalWorkspaceRoot (workspace : WorkspaceRecord) : Async JsString :=
  tryCatch (realpath workspace.canonicalPath) fun _ =>
    fail .workspaceUnavailable workspace.canonicalPath
      (js "workspace path is unavailable: " ++ workspace.canonicalPath)

/-- What `resolveScopeDirectory` throws for a failing `realpath`. -/
def scopeFailure (portablePath : JsString) (error : Thrown) : Async JsString :=
  if isErrnoCode error "ENOENT" then
    fail .scopeNotFound portablePath
      (js "instruction scope does not exist: " ++ portablePath)
  else
    fail .scopeInaccessible portablePath
      (js "instruction scope is inaccessible: " ++ portablePath)

/-- `resolveScopeDirectory(root, portablePath)`. -/
def resolveScopeDirectory (root portablePath : JsString) : Async JsString := do
  let candidate :=
    if portablePath = dot then root
    else Posix.resolve (root :: (portablePath.splitOn slash).filter fun s => s ≠ [])
  failWhen (!isSameOrDescendant root candidate) .pathOutsideWorkspace portablePath
    (js "scope escapes workspace: " ++ portablePath)
  let canonical ← tryCatch (realpath candidate) (scopeFailure portablePath)
  failWhen (!isSameOrDescendant root canonical) .pathOutsideWorkspace portablePath
    (js "scope resolves outside workspace: " ++ portablePath)
  let stats ← tryCatch (stat canonical) fun _ =>
    fail .scopeInaccessible portablePath
      (js "instruction scope is inaccessible: " ++ portablePath)
  failWhen (stats.type ≠ .directory) .scopeNotDirectory portablePath
    (js "instruction scope is not a directory: " ++ portablePath)
  return canonical

/-! ## Instruction files -/

structure FileMetadata where
  realPath : JsString
  fingerprint : JsString
  size : Int

/-- `${n}` of a bigint. -/
def bigintText (n : Int) : JsString := js (toString n)

/-- `[stats.dev, stats.ino, stats.size, stats.mtimeNs, stats.ctimeNs].join(':')`. -/
def FileStats.fingerprint (stats : FileStats) : JsString :=
  [ch ':'].intercalate
    ([stats.dev, stats.ino, stats.size, stats.mtimeNs, stats.ctimeNs].map bigintText)

/-- `instructionFileMetadata(root, candidate, portablePath)`. -/
def instructionFileMetadata (root candidate portablePath : JsString) : Async FileMetadata := do
  let _ ← lstat candidate
  let realPath ← realpath candidate
  failWhen (!isSameOrDescendant root realPath) .instructionPathOutsideWorkspace portablePath
    (js "instruction file resolves outside workspace: " ++ portablePath)
  let stats ← stat realPath
  failWhen (stats.type ≠ .file) .instructionSourceNotFile portablePath
    (js "instruction source is not a regular file: " ++ portablePath)
  failWhen ((Filesystem.maxSafeInteger : Int) < stats.size) .instructionTooLarge portablePath
    (js "instruction file size exceeds safe integer range: " ++ portablePath)
  return { realPath, size := stats.size, fingerprint := stats.fingerprint }

/-- `mapReadError(path, error)`. -/
def mapReadError (path : JsString) (error : Thrown) : Thrown :=
  match error with
  | .instructions _ => error
  | _ =>
      if isErrnoCode error "ENOENT" then
        .instructions
          { code := .instructionChangedDuringRead, path := some path
            message := js "instruction file disappeared while being read: " ++ path }
      else
        .instructions
          { code := .instructionInaccessible, path := some path
            message := js "instruction file is inaccessible: " ++ path }

structure ProviderContext where
  workspace : WorkspaceRecord
  workspaceRoot : JsString
  scopePath : JsString
  absoluteScopePath : JsString

def instructionTooLarge (filename : JsString) : JsString :=
  js "instruction file exceeds " ++ decimal maxInstructionBytes ++ js " bytes: " ++ filename

section
variable (sha256 : Bytes → JsString)

/-- The content of a buffer, taken from the cache when its digest is there. -/
def cachedContent (cached : Option CachedInstructionFile) (buffer : Bytes) (filename : JsString) :
    Except Thrown JsString :=
  match cached with
  | some entry =>
      if entry.sha256 = sha256 buffer then .ok entry.content
      else decodeInstructionText buffer filename
  | none => decodeInstructionText buffer filename

/-- The loop of `#readInstructionFile`. -/
def readStable (context : ProviderContext) (filename candidate : JsString)
    (cached : Option CachedInstructionFile) : Nat → FileMetadata → Async CachedInstructionFile
  | 0, _ =>
      fail .instructionChangedDuringRead filename
        (js "instruction file changed repeatedly while being read: " ++ filename)
  | attempts + 1, metadata => do
      failWhen ((maxInstructionBytes : Int) < metadata.size) .instructionTooLarge filename
        (instructionTooLarge filename)
      let buffer ← Async.mapError (mapReadError filename) (readFile metadata.realPath)
      failWhen (maxInstructionBytes < buffer.length) .instructionTooLarge filename
        (instructionTooLarge filename)
      let after ← Async.mapError (mapReadError filename)
        (instructionFileMetadata context.workspaceRoot candidate filename)
      if after.realPath = metadata.realPath ∧ after.fingerprint = metadata.fingerprint ∧
          after.size = buffer.length then do
        let content ← ofExcept (cachedContent sha256 cached buffer filename)
        let stable : CachedInstructionFile :=
          { realPath := metadata.realPath, fingerprint := metadata.fingerprint, content
            sha256 := sha256 buffer }
        setCached candidate stable
        return stable
      else readStable context filename candidate cached attempts after

/-- The first metadata; none when the file is not there. -/
def firstMetadata (context : ProviderContext) (filename candidate : JsString) :
    Async (Option FileMetadata) :=
  tryCatch (some <$> instructionFileMetadata context.workspaceRoot candidate filename) fun error =>
    if isErrnoCode error "ENOENT" then do
      deleteCached candidate
      return none
    else throw error

/-- `#readInstructionFile(context, filename)`. -/
def readInstructionFile (context : ProviderContext) (filename : JsString) :
    Async (Option CachedInstructionFile) := do
  let candidate := join context.absoluteScopePath filename
  let metadata ← firstMetadata context filename candidate
  match metadata with
  | none => return none
  | some metadata => do
      let cached ← getCached candidate
      some <$> readStable sha256 context filename candidate cached maxStableReadAttempts metadata

/-! ## Providers -/

/-- An InstructionProviderContribution; its fields are values that nobody has
checked. -/
structure Contribution where
  sourceId : Value
  content : Value
  path : Value

structure Provider where
  id : JsString
  precedence : Number
  resolveScope : ProviderContext → Async (List Contribution)

/-- `#fileProvider(id, precedence, filename)`. -/
def fileProvider (id : String) (precedence : Nat) (filename : String) : Provider where
  id := js id
  precedence := .ofNat precedence
  resolveScope context := do
    let document ← readInstructionFile sha256 context (js filename)
    return document.toList.map fun document =>
      { sourceId := .string (js filename), content := .string document.content
        path := .string (portableJoin context.scopePath (js filename)) }

def builtins : List Provider :=
  [fileProvider sha256 "builtin.claude" 100 "CLAUDE.md",
    fileProvider sha256 "builtin.agents" 200 "AGENTS.md"]

/-- `Number.isSafeInteger(value)`. -/
def isSafeInteger (value : Number) : Bool :=
  (Filesystem.integer? value).any fun n => n.natAbs ≤ Filesystem.maxSafeInteger

/-- `validateProviders(providers)`; `ids` are the ids before. -/
def validateProviders : List JsString → List Provider → Except JsError PUnit.{1}
  | _, [] => .ok ⟨⟩
  | ids, provider :: rest =>
      if provider.id = [] ∨ (0 : UInt16) ∈ provider.id ∨ !isSafeInteger provider.precedence then
        .error (.typeError
          (js "instruction providers require a non-empty id and integer precedence"))
      else if provider.id ∈ ids then
        .error (.typeError (js "duplicate instruction provider id: " ++ provider.id))
      else validateProviders (provider.id :: ids) rest

/-- The precedence of a provider that was accepted. -/
def Provider.rank (provider : Provider) : Int := (Filesystem.integer? provider.precedence).getD 0

/-- `compareProviders(left, right)`. -/
def compareProviders (left right : Provider) : Int :=
  if left.rank - right.rank ≠ 0 then left.rank - right.rank
  else compareCodePoints left.id right.id

/-! ## Contributions -/

/-- A string that is not empty and has no NUL. -/
def checkedString (value : Value) : Option JsString :=
  match value with
  | .string s => if s = [] ∨ (0 : UInt16) ∈ s then none else some s
  | _ => none

/-- The content of a contribution. -/
def contentOf (value : Value) : Option JsString :=
  match value with
  | .string s => if (0 : UInt16) ∈ s then none else some s
  | _ => none

/-- The path of a contribution; `none` is no path, and the outer one an invalid
path. -/
def pathOf (value : Value) : Option (Option JsString) :=
  match value with
  | .undefined | .null => some none
  | _ => (checkedString value).map some

/-- `normalizeContribution(providerId, scopePath, contribution)`. -/
def normalizeContribution (providerId scopePath : JsString) (contribution : Contribution) :
    Except Thrown InstructionDocument :=
  match checkedString contribution.sourceId with
  | none =>
      thrown .invalidProviderOutput scopePath
        (js "instruction provider " ++ providerId ++ js " returned an invalid sourceId")
  | some sourceId =>
      match contentOf contribution.content with
      | none =>
          thrown .invalidProviderOutput scopePath
            (js "instruction provider " ++ providerId ++ js " returned invalid text content")
      | some content =>
          if maxInstructionBytes < (encodeUtf8 content).length then
            thrown .instructionTooLarge scopePath
              (js "instruction contribution exceeds " ++ decimal maxInstructionBytes ++
                js " UTF-8 bytes")
          else
            match pathOf contribution.path with
            | none =>
                thrown .invalidProviderOutput scopePath
                  (js "instruction provider " ++ providerId ++ js " returned an invalid path")
            | some path =>
                .ok { providerId, scopePath, sourceId, path, content
                      sha256 := sha256 (encodeUtf8 content) }

/-- `compareDocumentsWithinProvider(left, right)`. -/
def compareDocumentsWithinProvider (left right : InstructionDocument) : Int :=
  if compareCodePoints left.sourceId right.sourceId ≠ 0 then
    compareCodePoints left.sourceId right.sourceId
  else if compareCodePoints (left.path.getD []) (right.path.getD []) ≠ 0 then
    compareCodePoints (left.path.getD []) (right.path.getD [])
  else compareCodePoints left.sha256 right.sha256

/-- The documents that a resolve has so far, with their bytes. -/
structure Resolved where
  documents : List InstructionDocument
  totalBytes : Nat

/-- The loop over the documents of a provider. -/
def addDocuments (scopePath : JsString) : List InstructionDocument → Resolved →
    Except Thrown Resolved
  | [], resolved => .ok resolved
  | document :: rest, resolved =>
      let totalBytes := resolved.totalBytes + (encodeUtf8 document.content).length
      if maxTotalInstructionBytes < totalBytes then
        thrown .instructionsTooLarge scopePath
          (js "resolved instructions exceed " ++ decimal maxTotalInstructionBytes ++
            js " UTF-8 bytes")
      else addDocuments scopePath rest ⟨resolved.documents ++ [document], totalBytes⟩

/-- What a provider contributes to a scope. -/
def askProvider (provider : Provider) (context : ProviderContext) : Async (List Contribution) :=
  tryCatch (provider.resolveScope context) fun error =>
    match error with
    | .instructions _ => throw error
    | _ =>
        fail .instructionProviderFailed context.scopePath
          (js "instruction provider " ++ provider.id ++ js " failed at scope " ++
            context.scopePath)

/-- The documents of a provider for a scope, in order. -/
def normalizeContributions (providerId scopePath : JsString) (contributions : List Contribution) :
    Except Thrown (List InstructionDocument) :=
  (contributions.mapM (normalizeContribution sha256 providerId scopePath)).map fun normalized =>
    normalized.insertionSort fun left right => compareDocumentsWithinProvider left right ≤ 0

/-! ## Resolving -/

/-- The loop over the providers of a scope. -/
def resolveProviders (scopePath : JsString) (context : ProviderContext) :
    List Provider → Resolved → Async Resolved
  | [], resolved => pure resolved
  | provider :: rest, resolved => do
      let contributions ← askProvider provider context
      let normalized ← ofExcept
        (normalizeContributions sha256 provider.id context.scopePath contributions)
      let resolved ← ofExcept (addDocuments scopePath normalized resolved)
      resolveProviders scopePath context rest resolved

/-- The loop over the scopes. -/
def resolveScopes (scopePath : JsString) (workspace : WorkspaceRecord) (workspaceRoot : JsString)
    (providers : List Provider) : List JsString → Resolved → Async Resolved
  | [], resolved => pure resolved
  | scope :: rest, resolved => do
      let absoluteScopePath ← resolveScopeDirectory workspaceRoot scope
      let context := { workspace, workspaceRoot, scopePath := scope, absoluteScopePath }
      let resolved ← resolveProviders sha256 scopePath context providers resolved
      resolveScopes scopePath workspace workspaceRoot providers rest resolved

end

/-! ## The service -/

/-- The cache belongs to the service: nobody else reads it or writes to it. -/
def Call.Outside : Call → Prop
  | .getCached _ => False
  | .setCached _ _ => False
  | .deleteCached _ => False
  | _ => True

/-- A provider of the owner of the service. -/
structure OwnProvider extends Provider where
  outside : ∀ context, Async.Uses Call.Outside (resolveScope context)

/-- What a service is made from: the registry, the providers of its owner, the
home directory, and SHA-256 and the parser of the packages it uses. -/
structure ServiceOptions where
  resolveWorkspace : JsString → Except Thrown (Option WorkspaceRecord)
  providers : List OwnProvider
  homeDirectory : JsString
  sha256 : Bytes → JsString
  parseDocument : JsString → YamlDocument

/-- An InstructionsService; its providers are in order. -/
structure Service where
  resolveWorkspace : JsString → Except Thrown (Option WorkspaceRecord)
  providers : List Provider
  homeDirectory : JsString
  sha256 : Bytes → JsString
  parseDocument : JsString → YamlDocument

/-- `new InstructionsService(options)`. -/
def Service.new (options : ServiceOptions) : Except JsError Service :=
  let providers := builtins options.sha256 ++ options.providers.map OwnProvider.toProvider
  (validateProviders [] providers).map fun _ =>
    { resolveWorkspace := options.resolveWorkspace
      providers := providers.insertionSort fun left right => compareProviders left right ≤ 0
      homeDirectory := Posix.resolve [options.homeDirectory]
      sha256 := options.sha256, parseDocument := options.parseDocument }

/-- `#requireWorkspace(workspaceId)`. -/
def Service.requireWorkspace (service : Service) (workspaceId : JsString) :
    Except Thrown WorkspaceRecord :=
  match service.resolveWorkspace workspaceId with
  | .error error => .error error
  | .ok none =>
      .error (.instructions
        { code := .workspaceNotFound, path := none
          message := js "workspace " ++ workspaceId ++ js " was not found" })
  | .ok (some workspace) =>
      if workspace.status ≠ .available then
        thrown .workspaceUnavailable workspace.canonicalPath
          (js "workspace " ++ workspaceId ++ js " is " ++ js workspace.status.text)
      else .ok workspace

/-- `InstructionsService.resolve(request)`. -/
def Service.resolve (service : Service) (request : InstructionsResolveRequest) :
    Async InstructionsResolveResult := do
  let workspace ← ofExcept (service.requireWorkspace request.workspaceId)
  let scopePath ← ofExcept (normalizeRelativePath (request.scopePath.getD dot))
  let workspaceRoot ← canonicalWorkspaceRoot workspace
  let scopes := buildScopeChain scopePath
  let resolved ← resolveScopes service.sha256 scopePath workspace workspaceRoot service.providers
    scopes ⟨[], 0⟩
  return { workspaceId := request.workspaceId, scopePath, scopes
           documents := resolved.documents }

end Benchhand.Instructions
