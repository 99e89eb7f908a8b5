/-
Benchhand.Filesystem.Workspace — the workspace of a request and its paths.

`normalizeRelativePath` turns a request path into segments joined by `/`,
`accessWorkspace` checks the workspace record against the file system, and
`resolveExistingPath` finds the canonical path of an object and refuses one
outside the root.
-/
import Benchhand.Contracts.WorkspaceRecord
import Benchhand.Filesystem.Error

namespace Benchhand.Filesystem

open Text Posix

/-! ## Services -/

/-- The fields of a workspace record that the package reads. -/
structure WorkspaceRecord where
  canonicalPath : JsString
  status : Contracts.WorkspaceStatus

/-- A FilesystemService with the functions it is given: the registry, whose
answer may be an exception, the hexadecimal SHA-256 of `node:crypto`, the glob
matcher, and the process id. -/
structure Service where
  resolveWorkspace : JsString → Except Thrown (Option WorkspaceRecord)
  sha256 : Bytes → JsString
  minimatch : JsString → JsString → Bool
  pid : JsString

/-! ## Paths -/

/-- `normalizeRelativePath(input, allowRoot)`. -/
def normalizeRelativePath (input : JsString) (allowRoot : Bool) :
    Except FilesystemError JsString :=
  if (0 : UInt16) ∈ input then
    .error { code := .invalidPath, path := none, message := js "path must be a NUL-free string" }
  else if isAbsolute input || win32IsAbsolute input then
    .error
      { code := .pathOutsideWorkspace, path := some input
        message := js "absolute paths are not allowed" }
  else
    let portable := input.map fun u => if u = ch '\\' then slash else u
    let segments := (portable.splitOn slash).filter fun s => s ≠ [] && s ≠ dot
    if dotDot ∈ segments then
      .error
        { code := .pathOutsideWorkspace, path := some input
          message := js "path traversal is not allowed" }
    else if segments = [] then
      if allowRoot then .ok dot
      else
        .error
          { code := .invalidPath, path := some input
            message := js "file path must not be empty" }
    else .ok (joinSegments segments)

/-- `isSameOrDescendant(root, candidate)`. -/
def isSameOrDescendant (root candidate : JsString) : Bool :=
  let fromRoot := relative root candidate
  fromRoot == [] ||
    (fromRoot != dotDot && !(dotDot ++ [slash]).isPrefixOf fromRoot && !isAbsolute fromRoot)

/-- `resolveExistingPath(root, portablePath)`. -/
def resolveExistingPath (root portablePath : JsString) : Async JsString := do
  let candidate :=
    if portablePath = dot then root
    else resolve (root :: (portablePath.splitOn slash).filter fun s => s ≠ [])
  failWhen (!isSameOrDescendant root candidate) .pathOutsideWorkspace portablePath
    (js "path escapes workspace: " ++ portablePath)
  let canonical ← (realpath candidate).mapError (mapFilesystemError portablePath)
  failWhen (!isSameOrDescendant root canonical) .pathOutsideWorkspace portablePath
    (js "path resolves outside workspace: " ++ portablePath)
  return canonical

/-- `#accessWorkspace(workspaceId)`, as the root it returns. -/
def Service.accessWorkspace (service : Service) (workspaceId : JsString) : Async JsString :=
  match service.resolveWorkspace workspaceId with
  -- no handler meets what the registry throws
  | .error error => throw error
  | .ok none =>
      fail .workspaceNotFound none (js "workspace " ++ workspaceId ++ js " was not found")
  | .ok (some workspace) => do
      failWhen (workspace.status ≠ .available) .workspaceUnavailable none
        (js "workspace " ++ workspaceId ++ js " is " ++ js workspace.status.text)
      let root ← (realpath workspace.canonicalPath).mapError fun _ =>
        .filesystem
          { code := .workspaceUnavailable, path := none
            message := js "workspace " ++ workspaceId ++ js " root is unavailable" }
      failWhen (root ≠ workspace.canonicalPath) .workspaceUnavailable none
        (js "workspace " ++ workspaceId ++ js " root identity changed")
      return root

/-- `joinPortable(base, name)`. -/
def joinPortable (base name : JsString) : JsString :=
  if base = dot then name else base ++ slash :: name

end Benchhand.Filesystem
