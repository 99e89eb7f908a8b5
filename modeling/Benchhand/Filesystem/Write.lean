/-
Benchhand.Filesystem.Write — FilesystemService.write.

The content goes to a temporary file next to the target, which a link or a
rename then puts in its place (`writeAtomic`). The target is inspected before
the content is staged and again before it is put in place. Two requests for one
target wait for each other; a request on its own does not, so the queue is not
in this module.
-/
import Benchhand.Filesystem.Workspace

namespace Benchhand.Filesystem

open Text Posix Process

/-! ## Requests and results -/

structure WriteRequest where
  workspaceId : JsString
  path : JsString
  content : JsString
  /-- Undefined, null, or a digest. -/
  expectedSha256 : Option (Option JsString)

inductive Durability where
  | fileAndDirectory
  | fileOnly
  deriving DecidableEq

structure WriteResult where
  path : JsString
  created : Bool
  previousSha256 : Option JsString
  sha256 : JsString
  bytesWritten : Nat
  durability : Durability
  deriving DecidableEq

def maxWriteBytes : Nat := 16 * 1024 * 1024

def hashChunkBytes : Nat := 64 * 1024

/-! ## Digests of a request -/

def isHexDigit (u : UInt16) : Bool :=
  (ch '0' ≤ u && u ≤ ch '9') || (ch 'a' ≤ u && u ≤ ch 'f') || (ch 'A' ≤ u && u ≤ ch 'F')

/-- `/^[0-9a-fA-F]{64}$/.test(value)`. -/
def isSha256 (value : JsString) : Bool := value.length == 64 && value.all isHexDigit

/-- `value.toLowerCase()` of hexadecimal digits. -/
def lowerHex (value : JsString) : JsString :=
  value.map fun u => if ch 'A' ≤ u && u ≤ ch 'F' then u + 32 else u

/-- `normalizeExpectedSha256(value)`. -/
def normalizeExpectedSha256 :
    Option (Option JsString) → Except FilesystemError (Option (Option JsString))
  | none => .ok none
  | some none => .ok (some none)
  | some (some value) =>
      if isSha256 value then .ok (some (some (lowerHex value)))
      else
        .error
          { code := .invalidRequest, path := none
            message :=
              js "expectedSha256 must be null or a 64-character hexadecimal SHA-256 digest" }

/-! ## The target -/

/-- The state of the target; `existing` is the field `exists`. -/
structure WriteTargetState where
  existing : Bool
  mode : Mode
  sha256 : Option JsString
  size : Nat

/-- The position of a read has passed the largest safe integer. -/
def positionError (position : Nat) : Js.JsError :=
  ⟨js "RangeError", js "The value of \"position\" is out of range. It must be >= -1 && <= " ++
    decimal maxSafeInteger ++ js ". Received " ++ decimal position⟩

/-- The loop of `sha256File`, as the bytes it feeds to the hash. Every round
reads at least a byte, so the position runs out of range before `fuel` does. -/
def hashedFrom (handle : Handle) : Nat → Nat → Bytes → Async Bytes
  | 0, position, _ => throw (.error (positionError position))
  | fuel + 1, position, hashed =>
      if maxSafeInteger < position then throw (.error (positionError position))
      else do
        let chunk ← Handle.read handle position hashChunkBytes
        if chunk = [] then return hashed
        else hashedFrom handle fuel (position + chunk.length) (hashed ++ chunk)

/-- `sha256File(target, portablePath)`. -/
def Service.sha256File (service : Service) (target portablePath : JsString) : Async JsString := do
  let handle ← (openRead target).mapError (mapFilesystemError portablePath)
  let hashed ← tryFinally (hashedFrom handle (maxSafeInteger + 2) 0 []) (Handle.close handle)
  return service.sha256 hashed

/-- `inspectWriteTarget(target, portablePath)`. -/
def Service.inspectWriteTarget (service : Service) (target portablePath : JsString) :
    Async WriteTargetState := do
  let stats ← tryCatch (some <$> lstat target) fun error =>
    if hasErrnoCode error "ENOENT" then pure none
    else throw (mapFilesystemError portablePath error)
  match stats with
  | none => return ⟨false, 0, none, 0⟩
  | some stats => do
      failWhen (stats.type = .symlink) .pathSymlinkUnsupported portablePath
        (js "atomic write does not replace symlink targets: " ++ portablePath)
      failWhen (stats.type ≠ .file) .pathNotFile portablePath
        (js "atomic write target is not a regular file: " ++ portablePath)
      let sha256 ← service.sha256File target portablePath
      return ⟨true, BitVec.ofNat 12 stats.mode, some sha256, stats.size⟩

/-- `enforceWritePrecondition(expected, current, path)`. -/
def enforceWritePrecondition (expected : Option (Option JsString)) (current : WriteTargetState)
    (path : JsString) : Except FilesystemError PUnit :=
  match expected with
  | none => .ok ⟨⟩
  | some none =>
      if current.existing then
        .error
          { code := .writeConflict, path := some path
            message :=
              js "create-only precondition failed because target already exists: " ++ path }
      else .ok ⟨⟩
  | some (some expected) =>
      if !current.existing || current.sha256 != some expected then
        .error
          { code := .writeConflict, path := some path
            message := js "SHA-256 precondition failed for " ++ path }
      else .ok ⟨⟩

/-- The canonical parent and the target of a request; `verb` is in the message
of its errors. -/
def writeTarget (root path : JsString) (verb : String) : Async (JsString × JsString) := do
  let parentPath := dirname path
  let canonicalParent ← resolveExistingPath root parentPath
  let parentStats ← (lstat canonicalParent).mapError (mapFilesystemError parentPath)
  failWhen (parentStats.type ≠ .directory) .pathNotDirectory parentPath
    (js verb ++ js " parent is not a directory: " ++ parentPath)
  let target := join canonicalParent (basename path)
  failWhen (!isSameOrDescendant root target) .pathOutsideWorkspace path
    (js verb ++ js " target escapes workspace: " ++ path)
  return (canonicalParent, target)

/-! ## Writing -/

structure WriteOptions where
  path : JsString
  target : JsString
  parent : JsString
  content : Bytes
  expectedSha256 : Option (Option JsString)

/-- The path of the temporary file; `uuid` is the value of `randomUUID()`. -/
def Service.tempPath (service : Service) (uuid : JsString) (options : WriteOptions) : JsString :=
  join options.parent (js "." ++ basename options.target ++ js ".benchhand-write-" ++ service.pid ++
    js "-" ++ uuid ++ js ".tmp")

/-- The local variables of `writeAtomic` that its `finally` reads. -/
structure TempState where
  tempExists : Bool
  renamed : Bool

abbrev WriteBody := Local Call Answer Thrown TempState

/-- The inner `try`: the content is written to the temporary file. -/
def stageContent (handle : Handle) (initial : WriteTargetState) (content : Bytes) :
    Async PUnit := do
  (if initial.existing then Handle.chmod handle initial.mode else pure ⟨⟩)
  Handle.writeFile handle content
  Handle.sync handle

/-- `linkFile(tempPath, target)` for a file that must be new. -/
def linkTarget (path tempPath target : JsString) : Async PUnit :=
  tryCatch (link tempPath target) fun error =>
    if hasErrnoCode error "EEXIST" then
      fail .writeConflict path (js "create-only precondition lost a commit race for " ++ path)
    else throw (mapWriteFailure path error)

/-- The temporary file is put in the place of the target. -/
def commitTemp (options : WriteOptions) (tempPath : JsString) : Async PUnit :=
  if options.expectedSha256 = some none then do
    linkTarget options.path tempPath options.target
    (rm tempPath).ignoreErrors
  else (rename tempPath options.target).mapError (mapWriteFailure options.path)

/-- `syncDirectoryBestEffort(directory)`. -/
def syncDirectoryBestEffort (directory : JsString) : Async Bool := do
  let handle ← tryCatch (some <$> openRead directory) fun _ => pure none
  match handle with
  | none => return false
  | some handle => do
      let synced ← tryCatch ((fun _ => true) <$> Handle.sync handle) fun _ => pure false
      (Handle.close handle).ignoreErrors
      return synced

/-- The outer `try`. -/
def Service.writeBody (service : Service) (uuid : JsString) (options : WriteOptions)
    (initial : WriteTargetState) : WriteBody WriteResult := do
  let tempPath := service.tempPath uuid options
  let mode := if initial.existing then initial.mode else 0o666
  let handle ← (openExclusive tempPath mode).mapError (mapWriteFailure options.path)
  Local.assign fun s => { s with tempExists := true }
  (tryFinally (stageContent handle initial options.content) (Handle.close handle) : Async PUnit)
  let beforeCommit ← service.inspectWriteTarget options.target options.path
  ofExcept (enforceWritePrecondition options.expectedSha256 beforeCommit options.path)
  commitTemp options tempPath
  Local.assign fun _ => ⟨false, true⟩
  let directorySynced ← (tryCatch (syncDirectoryBestEffort options.parent) fun _ => pure false :
    Async Bool)
  return { path := options.path, created := !beforeCommit.existing
           previousSha256 := if beforeCommit.existing then beforeCommit.sha256 else none
           sha256 := service.sha256 options.content, bytesWritten := options.content.length
           durability := if directorySynced then .fileAndDirectory else .fileOnly }

/-- `#writeAtomic(options)`. -/
def Service.writeAtomic (service : Service) (uuid : JsString) (options : WriteOptions) :
    Async WriteResult := do
  let initial ← service.inspectWriteTarget options.target options.path
  ofExcept (enforceWritePrecondition options.expectedSha256 initial options.path)
  Local.tryFinally ⟨false, false⟩ (service.writeBody uuid options initial) fun s =>
    if s.tempExists && !s.renamed then (rm (service.tempPath uuid options)).ignoreErrors
    else pure ⟨⟩

/-- What a write does before its turn comes. -/
def Service.prepareWrite (service : Service) (request : WriteRequest) : Async WriteOptions := do
  let content := encodeUtf8 request.content
  failWhen (maxWriteBytes < content.length) .writeTooLarge request.path
    (js "write content exceeds " ++ decimal maxWriteBytes ++ js " UTF-8 bytes")
  let expectedSha256 ← ofExcept (normalizeExpectedSha256 request.expectedSha256)
  let root ← service.accessWorkspace request.workspaceId
  let path ← ofExcept (normalizeRelativePath request.path false)
  let (parent, target) ← writeTarget root path "write"
  return { path, target, parent, content, expectedSha256 }

/-- `FilesystemService.write(request)`. -/
def Service.write (service : Service) (uuid : JsString) (request : WriteRequest) :
    Async WriteResult := do
  let options ← service.prepareWrite request
  service.writeAtomic uuid options

end Benchhand.Filesystem
