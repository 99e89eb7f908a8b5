/-
Benchhand.Filesystem.Error — FilesystemError and what the functions throw.

A function of the package throws a FilesystemError, lets an exception of a
system call through, or throws the TypeError of a failed decoding. The cause of
an error is never read, so it is left out.
-/
import Benchhand.Js.Value
import Benchhand.Posix.Volume
import Benchhand.Process.Program

namespace Benchhand.Filesystem

open Text Posix

/-! ## Errors -/

/-- The codes of FilesystemError. -/
inductive ErrorCode where
  | invalidRequest
  | invalidPath
  | invalidCursor
  | workspaceNotFound
  | workspaceUnavailable
  | pathOutsideWorkspace
  | pathNotFound
  | pathInaccessible
  | pathNotFile
  | pathNotDirectory
  | pathSymlinkUnsupported
  | fileTooLarge
  | filesystemFailure
  | writeTooLarge
  | writeConflict
  | writeFailed
  | patchTooLarge
  | patchBinaryUnsupported
  | patchConflict
  | patchFailed
  deriving DecidableEq

/-- The `details` of a PATCH_CONFLICT. -/
inductive Details where
  | expectedTextNotFound (editIndex : Nat)
  | ambiguousMatch (editIndex matchCount : Nat)
  | overlappingEdits (editIndex conflictsWithEditIndex : Nat)
  | sha256Mismatch (expectedSha256 : JsString) (actualSha256 : Option JsString)
  deriving DecidableEq

structure FilesystemError where
  code : ErrorCode
  path : Option JsString
  message : JsString
  details : Option Details := none
  deriving DecidableEq

/-- What a function of the package rejects with. -/
inductive Thrown where
  | filesystem (e : FilesystemError)
  | errno (e : Errno)
  | error (e : Js.JsError)
  deriving DecidableEq

def Thrown.message : Thrown → JsString
  | .filesystem e => e.message
  | .errno e => e.message
  | .error e => e.message

/-- `hasErrnoCode(error, code)`. The codes of FilesystemError are none of
those it is asked for. -/
def hasErrnoCode (error : Thrown) (code : String) : Bool :=
  match error with
  | .errno e => e.code == js code
  | _ => false

/-- `error instanceof FilesystemError && error.code === code`. -/
def Thrown.hasCode (error : Thrown) (code : ErrorCode) : Bool :=
  match error with
  | .filesystem e => e.code == code
  | _ => false

abbrev Async := Process.Async Call Answer Thrown

/-- A call of the operating system; its failure is thrown. -/
def call (c : Call) : Async c.Returns := .request c fun r => r.mapError Thrown.errno

/-! ## The functions of `node:fs/promises` -/

def realpath (path : JsString) : Async JsString := call (.realpath path)

def lstat (path : JsString) : Async Stats := call (.lstat path)

def readdir (path : JsString) : Async (List Dirent) := call (.readdir path)

def openRead (path : JsString) : Async Handle := call (.openRead path)

def openExclusive (path : JsString) (mode : Mode) : Async Handle :=
  call (.openExclusive path mode)

def link (existing new : JsString) : Async PUnit := call (.link existing new)

def rename (old new : JsString) : Async PUnit := call (.rename old new)

def rm (path : JsString) : Async PUnit := call (.rm path)

namespace Handle

def stat (handle : Handle) : Async Stats := call (.stat handle)

def read (handle : Handle) (position length : Nat) : Async Bytes :=
  call (.read handle position length)

def readFile (handle : Handle) : Async Bytes := call (.readFile handle)

def chmod (handle : Handle) (mode : Mode) : Async PUnit := call (.chmod handle mode)

def writeFile (handle : Handle) (content : Bytes) : Async PUnit := call (.writeFile handle content)

def sync (handle : Handle) : Async PUnit := call (.sync handle)

def close (handle : Handle) : Async PUnit := call (.close handle)

end Handle

/-! ## Throwing -/

/-- `throw new FilesystemError(code, path, message)`. -/
def fail {α : Type} (code : ErrorCode) (path : Option JsString) (message : JsString) : Async α :=
  throw (.filesystem { code, path, message })

/-- A check that needs no system call. -/
def ofExcept {α : Type} (r : Except FilesystemError α) : Async α :=
  ExceptT.mk (.done (r.mapError Thrown.filesystem))

/-- `if (condition) throw new FilesystemError(code, path, message)`. -/
def failWhen (condition : Bool) (code : ErrorCode) (path : Option JsString) (message : JsString) :
    Async PUnit :=
  if condition then fail code path message else pure ⟨⟩

def mapFilesystemError (path : JsString) (error : Thrown) : Thrown :=
  if hasErrnoCode error "ENOENT" || hasErrnoCode error "ENOTDIR" then
    .filesystem
      { code := .pathNotFound, path := some path, message := js "path was not found: " ++ path }
  else if hasErrnoCode error "EACCES" || hasErrnoCode error "EPERM" then
    .filesystem
      { code := .pathInaccessible, path := some path
        message := js "path is inaccessible: " ++ path }
  else
    .filesystem { code := .filesystemFailure, path := some path, message := error.message }

def mapWriteFailure (path : JsString) (error : Thrown) : Thrown :=
  match error with
  | .filesystem _ => error
  | _ =>
      if hasErrnoCode error "EACCES" || hasErrnoCode error "EPERM" then
        .filesystem
          { code := .pathInaccessible, path := some path
            message := js "write target is inaccessible: " ++ path }
      else .filesystem { code := .writeFailed, path := some path, message := error.message }

/-- `${n}` of a natural number. -/
def decimal (n : Nat) : JsString := js (Nat.repr n)

/-! ## Numbers and strings of a request -/

/-- The integer a double is, if it is one. -/
def integer? : Js.Number → Option Int
  | .finite x =>
      let magnitude : Option Nat :=
        if 0 ≤ x.exp then some (x.mant * 2 ^ x.exp.toNat)
        else if x.mant % 2 ^ (-x.exp).toNat = 0 then some (x.mant / 2 ^ (-x.exp).toNat)
        else none
      magnitude.map fun n => if x.neg then -(n : Int) else n
  | _ => none

def maxSafeInteger : Nat := 2 ^ 53 - 1

/-- `boundedInteger(value, name, minimum, maximum)`. -/
def boundedInteger (value : Js.Number) (name : String) (minimum maximum : Nat) :
    Except FilesystemError Nat :=
  let invalid : FilesystemError :=
    { code := .invalidRequest, path := none
      message := js name ++ js " must be an integer between " ++ decimal minimum ++ js " and " ++
        decimal maximum }
  match integer? value with
  | some n =>
      if n.natAbs ≤ maxSafeInteger ∧ (minimum : Int) ≤ n ∧ n ≤ maximum then .ok n.toNat
      else .error invalid
  | none => .error invalid

/-- An optional number of a request, with its default. -/
def boundedOption (value : Option Js.Number) (default : Nat) (name : String)
    (minimum maximum : Nat) : Except FilesystemError Nat :=
  match value with
  | some n => boundedInteger n name minimum maximum
  | none => .ok default

def validateSearchString (value : JsString) (name : String) (minimum maximum : Nat) :
    Except FilesystemError JsString :=
  if value.length < minimum ∨ maximum < value.length ∨ (0 : UInt16) ∈ value then
    .error
      { code := .invalidRequest, path := none
        message := js name ++ js " length must be between " ++ decimal minimum ++ js " and " ++
          decimal maximum }
  else .ok value

end Benchhand.Filesystem
