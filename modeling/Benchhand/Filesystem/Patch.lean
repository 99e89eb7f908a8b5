/-
Benchhand.Filesystem.Patch — FilesystemService.patch.

Every edit must find its old text in exactly one place of the file
(`planExactPatch`), and no two of these places may overlap. The patched text is
then written like the content of a write, with the digest that the request
expects of the file.
-/
import Benchhand.Filesystem.Read
import Benchhand.Filesystem.Write
import Benchhand.Text.IndexOf
import Mathlib.Data.List.Sort

namespace Benchhand.Filesystem

open Text Posix Process

/-! ## Requests and results -/

structure PatchEdit where
  oldText : JsString
  newText : JsString
  deriving DecidableEq

structure PatchRequest where
  workspaceId : JsString
  path : JsString
  expectedSha256 : JsString
  edits : List PatchEdit

structure PatchResult where
  path : JsString
  previousSha256 : JsString
  sha256 : JsString
  editsApplied : Nat
  bytesWritten : Nat
  durability : Durability
  deriving DecidableEq

def maxPatchEdits : Nat := 256

/-- `normalizeRequiredSha256(value, name)`. -/
def normalizeRequiredSha256 (value : JsString) (name : String) :
    Except FilesystemError JsString :=
  if isSha256 value then .ok (lowerHex value)
  else
    .error
      { code := .invalidRequest, path := none
        message := js name ++ js " must be a 64-character hexadecimal SHA-256 digest" }

/-- The callback of `normalizePatchEdits`. -/
def normalizePatchEdit (edit : PatchEdit) (index : Nat) : Except FilesystemError PatchEdit :=
  if edit.oldText = [] ∨ (0 : UInt16) ∈ edit.oldText ∨ (0 : UInt16) ∈ edit.newText then
    .error
      { code := .invalidRequest, path := none
        message := js "edits[" ++ decimal index ++
          js "] must contain non-empty NUL-free oldText and NUL-free string newText" }
  else .ok edit

/-- `normalizePatchEdits(value)`. -/
def normalizePatchEdits (value : List PatchEdit) : Except FilesystemError (List PatchEdit) :=
  if value.length = 0 ∨ maxPatchEdits < value.length then
    .error
      { code := .invalidRequest, path := none
        message := js "edits must contain between 1 and " ++ decimal maxPatchEdits ++
          js " entries" }
  else value.zipIdx.mapM fun (edit, index) => normalizePatchEdit edit index

/-! ## Planning -/

structure PlannedPatchEdit extends PatchEdit where
  editIndex : Nat
  start : Nat
  stop : Nat
  deriving DecidableEq

/-- `findAllOccurrences(source, expected)`. -/
def findAllOccurrences (source expected : JsString) : List Nat :=
  occurrencesFrom source expected 1 (source.length + 1) 0

def patchConflict (path message : JsString) (details : Details) : FilesystemError :=
  { code := .patchConflict, path := some path, message, details := some details }

/-- The place of one edit. -/
def planEdit (source path : JsString) (edit : PatchEdit) (editIndex : Nat) :
    Except FilesystemError PlannedPatchEdit :=
  match findAllOccurrences source edit.oldText with
  | [] =>
      .error (patchConflict path
        (js "patch edit " ++ decimal editIndex ++ js " expected text was not found in " ++ path)
        (.expectedTextNotFound editIndex))
  | [start] => .ok { edit with editIndex, start, stop := start + edit.oldText.length }
  | places =>
      .error (patchConflict path
        (js "patch edit " ++ decimal editIndex ++ js " is ambiguous in " ++ path)
        (.ambiguousMatch editIndex places.length))

/-- The loop over neighbours of the ordered edits. -/
def checkOverlaps (path : JsString) : List PlannedPatchEdit → Except FilesystemError PUnit
  | previous :: current :: rest =>
      if current.start < previous.stop then
        .error (patchConflict path (js "patch edits overlap in " ++ path)
          (.overlappingEdits current.editIndex previous.editIndex))
      else checkOverlaps path (current :: rest)
  | _ => .ok ⟨⟩

/-- `planExactPatch(source, edits, path)`. -/
def planExactPatch (source : JsString) (edits : List PatchEdit) (path : JsString) :
    Except FilesystemError (List PlannedPatchEdit) := do
  let planned ← edits.zipIdx.mapM fun (edit, editIndex) => planEdit source path edit editIndex
  let ordered := planned.insertionSort fun left right => left.start ≤ right.start
  checkOverlaps path ordered
  return ordered

/-- The loop of `applyPlannedPatch`, from `cursor` on. -/
def applyFromCursor (source : JsString) : Nat → List PlannedPatchEdit → JsString
  | cursor, [] => source.drop cursor
  | cursor, edit :: rest =>
      (source.take edit.start).drop cursor ++ edit.newText ++ applyFromCursor source edit.stop rest

/-- `applyPlannedPatch(source, planned)`. -/
def applyPlannedPatch (source : JsString) (planned : List PlannedPatchEdit) : JsString :=
  applyFromCursor source 0 planned

/-! ## Patching -/

/-- `patchHashConflict(path, expectedSha256, actualSha256)`. -/
def patchHashConflict (path expectedSha256 : JsString) (actualSha256 : Option JsString) :
    FilesystemError :=
  patchConflict path (js "SHA-256 patch precondition failed for " ++ path)
    (.sha256Mismatch expectedSha256 actualSha256)

/-- `enforcePatchHashPrecondition(expectedSha256, current, path)`. -/
def enforcePatchHashPrecondition (expectedSha256 : JsString) (current : WriteTargetState)
    (path : JsString) : Except FilesystemError PUnit :=
  if !current.existing || current.sha256 != some expectedSha256 then
    .error (patchHashConflict path expectedSha256 current.sha256)
  else .ok ⟨⟩

/-- `readWholeFile(target, portablePath, size)`. -/
def readWholeFile (target portablePath : JsString) (size : Nat) : Async Bytes := do
  failWhen (maxSafeInteger < size ∨ maxWriteBytes < size) .patchTooLarge portablePath
    (js "invalid patch source size")
  let handle ← (openRead target).mapError (mapFilesystemError portablePath)
  tryFinally
    (do
      let data ← Handle.readFile handle
      failWhen (maxWriteBytes < data.length) .patchTooLarge portablePath
        (js "patch source exceeds " ++ decimal maxWriteBytes ++ js " bytes: " ++ portablePath)
      return data)
    (Handle.close handle)

structure PatchOptions where
  path : JsString
  target : JsString
  parent : JsString
  expectedSha256 : JsString
  edits : List PatchEdit

/-- What a patch does before its turn comes. -/
def Service.preparePatch (service : Service) (request : PatchRequest) : Async PatchOptions := do
  let expectedSha256 ← ofExcept (normalizeRequiredSha256 request.expectedSha256 "expectedSha256")
  let edits ← ofExcept (normalizePatchEdits request.edits)
  let root ← service.accessWorkspace request.workspaceId
  let path ← ofExcept (normalizeRelativePath request.path false)
  let (parent, target) ← writeTarget root path "patch"
  return { path, target, parent, expectedSha256, edits }

/-- The new content of the file and the number of edits. -/
def Service.patchedContent (service : Service) (options : PatchOptions) : Async (Bytes × Nat) := do
  let initial ← service.inspectWriteTarget options.target options.path
  ofExcept (enforcePatchHashPrecondition options.expectedSha256 initial options.path)
  failWhen (maxWriteBytes < initial.size) .patchTooLarge options.path
    (js "patch source exceeds " ++ decimal maxWriteBytes ++ js " bytes: " ++ options.path)
  let sourceBuffer ← readWholeFile options.target options.path initial.size
  let sourceSha256 := service.sha256 sourceBuffer
  ofExcept (if sourceSha256 ≠ options.expectedSha256 then
    .error (patchHashConflict options.path options.expectedSha256 sourceSha256) else .ok PUnit.unit)
  failWhen (classifyBuffer sourceBuffer = .binary) .patchBinaryUnsupported options.path
    (js "deterministic text patch does not support binary content: " ++ options.path)
  let source ← decodeUtf8 sourceBuffer
  let planned ← ofExcept (planExactPatch source options.edits options.path)
  let content := encodeUtf8 (applyPlannedPatch source planned)
  failWhen (maxWriteBytes < content.length) .patchTooLarge options.path
    (js "patched content exceeds " ++ decimal maxWriteBytes ++ js " UTF-8 bytes: " ++ options.path)
  return (content, planned.length)

/-- The `catch` around `#writeAtomic`. -/
def Service.patchFailure (service : Service) (options : PatchOptions) (error : Thrown) :
    Async WriteResult :=
  if error.hasCode .writeConflict then do
    let current ← service.inspectWriteTarget options.target options.path
    ofExcept (.error (patchHashConflict options.path options.expectedSha256 current.sha256))
  else
    match error with
    | .filesystem e =>
        if e.code = .writeFailed then
          throw (.filesystem { e with code := .patchFailed, path := options.path })
        else throw error
    | _ => throw error

/-- `FilesystemService.patch(request)`. -/
def Service.patch (service : Service) (uuid : JsString) (request : PatchRequest) :
    Async PatchResult := do
  let options ← service.preparePatch request
  let (content, editsApplied) ← service.patchedContent options
  let write ← tryCatch
    (service.writeAtomic uuid
      { path := options.path, target := options.target, parent := options.parent, content
        expectedSha256 := some (some options.expectedSha256) })
    (service.patchFailure options)
  return { path := options.path, previousSha256 := options.expectedSha256, sha256 := write.sha256
           editsApplied, bytesWritten := write.bytesWritten, durability := write.durability }

end Benchhand.Filesystem
