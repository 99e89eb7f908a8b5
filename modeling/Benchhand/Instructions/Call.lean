/-
Benchhand.Instructions.Call — what the functions of the package call.

Beside the calls of the file system there are `stat`, which reports enough to
tell two versions of a file apart, and `readFile`, which takes time: it opens
the file at one moment and has its bytes at a later one. The file cache of the
service is read and written by calls too, so that whatever happens between two
of them can be said.
-/
import Benchhand.Filesystem.List
import Benchhand.Instructions.Error
import Benchhand.Process.Program

namespace Benchhand.Instructions

open Text Posix

/-! ## Files -/

/-- What `stat(path, { bigint: true })` reports, as far as it is read. -/
structure FileStats where
  type : ObjectType
  dev : Int
  ino : Int
  size : Int
  mtimeNs : Int
  ctimeNs : Int
  deriving DecidableEq

/-- A `readFile` that has begun. -/
structure Reading where
  path : JsString
  moment : Nat

structure CachedInstructionFile where
  realPath : JsString
  fingerprint : JsString
  content : JsString
  sha256 : JsString
  deriving DecidableEq

/-! ## Calls -/

inductive Call where
  | os (c : Posix.Call)
  | stat (path : JsString)
  | openFile (path : JsString)
  | readAll (reading : Reading)
  | getCached (candidate : JsString)
  | setCached (candidate : JsString) (entry : CachedInstructionFile)
  | deleteCached (candidate : JsString)

/-- What a call resolves with. -/
def Call.Answer : Call → Type
  | .os c => Posix.Answer c
  | .stat _ => Except Errno FileStats
  | .openFile _ => Except Errno Reading
  | .readAll _ => Except Errno Bytes
  | .getCached _ => Option CachedInstructionFile
  | .setCached _ _ => PUnit
  | .deleteCached _ => PUnit

abbrev Async := Process.Async Call Call.Answer Thrown

/-- A call of the file system; its failure is thrown. -/
def os (c : Posix.Call) : Async c.Returns :=
  .request (.os c) fun r => Except.mapError Thrown.errno r

def realpath (path : JsString) : Async JsString := os (.realpath path)

def lstat (path : JsString) : Async Stats := os (.lstat path)

def stat (path : JsString) : Async FileStats :=
  .request (.stat path) fun r => Except.mapError Thrown.errno r

/-- `readFile(path)`. -/
def readFile (path : JsString) : Async Bytes := do
  let reading ← (.request (.openFile path) fun r => Except.mapError Thrown.errno r)
  .request (.readAll reading) fun r => Except.mapError Thrown.errno r

/-- `this.#fileCache.get(candidate)`. -/
def getCached (candidate : JsString) : Async (Option CachedInstructionFile) :=
  .request (.getCached candidate) fun r => .ok r

def setCached (candidate : JsString) (entry : CachedInstructionFile) : Async PUnit :=
  .request (.setCached candidate entry) fun _ => .ok ⟨⟩

def deleteCached (candidate : JsString) : Async PUnit :=
  .request (.deleteCached candidate) fun _ => .ok ⟨⟩

/-! ## Throwing -/

/-- `throw new InstructionsError(code, path, message)`. -/
def fail {α : Type} (code : ErrorCode) (path : Option JsString) (message : JsString) : Async α :=
  throw (.instructions { code, path, message })

/-- A check that makes no call. -/
def ofExcept {α : Type} (r : Except Thrown α) : Async α := ExceptT.mk (.done r)

/-- `if (condition) throw new InstructionsError(code, path, message)`. -/
def failWhen (condition : Bool) (code : ErrorCode) (path : Option JsString)
    (message : JsString) : Async PUnit :=
  if condition then fail code path message else pure ⟨⟩

/-! ## Shared functions -/

def decimal (n : Nat) : JsString := Filesystem.decimal n

/-- The package has its own copy of `isSameOrDescendant`. -/
def isSameOrDescendant (root candidate : JsString) : Bool :=
  Filesystem.isSameOrDescendant root candidate

/-- The package has its own copy of `compareCodePoints`. -/
def compareCodePoints (left right : JsString) : Int := Filesystem.compareCodePoints left right

end Benchhand.Instructions
