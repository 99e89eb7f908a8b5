/-
Benchhand.Workspace.Call — what the registry calls, and what it throws.

A `Call` is one statement on the database, one call of the operating system or
one run of git; the answers come from outside. `git worktree add` is a process
of its own, which others can watch: it creates the branch, then the directory,
then the entry of the locked worktree (`AddStage`).
-/
import Benchhand.Posix.Volume
import Benchhand.Process.Program
import Benchhand.Workspace.Database

namespace Benchhand.Workspace

open Text Js Posix Contracts

/-! ## Errors -/

/-- The codes of WorkspaceRegistryError and GitWorktreeError. -/
inductive Code where
  | workspaceBaseRefRequiresWorktree
  | workspacePathNotFound
  | workspacePathInaccessible
  | workspacePathNotDirectory
  | workspacePathFailure
  | worktreeRepoRequired
  | worktreeRootUnconfigured
  | worktreeRootConflict
  | worktreeBaseRefInvalid
  | worktreeBranchCheckFailed
  | worktreeListFailed
  | worktreeCreateFailed
  | worktreePathOccupied
  | worktreeBranchOccupied
  | worktreeCleanupRequired
  deriving DecidableEq

def Code.text : Code → String
  | .workspaceBaseRefRequiresWorktree => "WORKSPACE_BASE_REF_REQUIRES_WORKTREE"
  | .workspacePathNotFound => "WORKSPACE_PATH_NOT_FOUND"
  | .workspacePathInaccessible => "WORKSPACE_PATH_INACCESSIBLE"
  | .workspacePathNotDirectory => "WORKSPACE_PATH_NOT_DIRECTORY"
  | .workspacePathFailure => "WORKSPACE_PATH_FAILURE"
  | .worktreeRepoRequired => "WORKTREE_REPO_REQUIRED"
  | .worktreeRootUnconfigured => "WORKTREE_ROOT_UNCONFIGURED"
  | .worktreeRootConflict => "WORKTREE_ROOT_CONFLICT"
  | .worktreeBaseRefInvalid => "WORKTREE_BASE_REF_INVALID"
  | .worktreeBranchCheckFailed => "WORKTREE_BRANCH_CHECK_FAILED"
  | .worktreeListFailed => "WORKTREE_LIST_FAILED"
  | .worktreeCreateFailed => "WORKTREE_CREATE_FAILED"
  | .worktreePathOccupied => "WORKTREE_PATH_OCCUPIED"
  | .worktreeBranchOccupied => "WORKTREE_BRANCH_OCCUPIED"
  | .worktreeCleanupRequired => "WORKTREE_CLEANUP_REQUIRED"

structure WorkspaceRegistryError where
  code : Code
  path : JsString
  message : JsString
  deriving DecidableEq

structure GitWorktreeError where
  code : Code
  message : JsString
  stderr : JsString
  deriving DecidableEq

/-- What an async function of the package rejects with. -/
inductive Thrown where
  | registry (e : WorkspaceRegistryError)
  | git (e : GitWorktreeError)
  | errno (e : Errno)
  | error (e : JsError)
  deriving DecidableEq

def Thrown.message : Thrown → JsString
  | .registry e => e.message
  | .git e => e.message
  | .errno e => e.message
  | .error e => e.message

/-- `hasErrnoCode(error, code)`; the codes of the package's own errors are
none of those it is asked for. -/
def hasErrnoCode (error : Thrown) (code : String) : Bool :=
  match error with
  | .errno e => e.code == js code
  | _ => false

/-- What `execFile` rejects with: the exit code, if the process ended by
itself, and what it wrote. -/
structure ExecFailure where
  code : Option Nat
  stderr : JsString
  deriving DecidableEq

/-! ## Calls -/

/-- What `stat` with `bigint: true` reports. -/
structure BigIntStats where
  isDirectory : Bool
  dev : Nat
  ino : Nat
  birthtimeNs : Int
  deriving DecidableEq

/-- A value of type WorkspaceId. -/
structure WorkspaceId where
  text : JsString
  ne_nil : text ≠ []

/-- The steps of `git worktree add` that others can see. -/
inductive AddStage where
  | branch
  | directory
  | entry
  deriving DecidableEq

/-- The options of `createLockedWorktree`. -/
structure LockedWorktree where
  repoRoot : JsString
  worktreePath : JsString
  branch : JsString
  baseCommit : JsString
  ownershipKey : JsString
  deriving DecidableEq

inductive Call where
  | sql (s : Statement)
  | realpath (path : JsString)
  | stat (path : JsString)
  | lstat (path : JsString)
  /-- `mkdir(path, { recursive: true })`. -/
  | mkdir (path : JsString)
  /-- `git rev-parse --verify --end-of-options <revision>`. -/
  | revParse (repoRoot revision : JsString)
  /-- `git rev-parse --verify --quiet --end-of-options refs/heads/<branch>^{commit}`. -/
  | branchCommit (repoRoot branch : JsString)
  /-- `git worktree list --porcelain -z`. -/
  | worktreeList (repoRoot : JsString)
  /-- `git worktree add --lock --reason benchhand:<ownershipKey> -b <branch>
  <worktreePath> <baseCommit>`. -/
  | worktreeAdd (stage : AddStage) (worktree : LockedWorktree)
  /-- `now().toISOString()`. -/
  | now
  | createWorkspaceId
  | delay (milliseconds : Nat)

/-- What a call gives back. -/
def Answer : Call → Type
  | .sql s => Except JsError s.Result
  | .realpath _ => Except Errno JsString
  | .stat _ => Except Errno BigIntStats
  | .lstat _ => Except Errno Unit
  | .mkdir _ => Except Errno Unit
  | .revParse _ _ => Except ExecFailure JsString
  | .branchCommit _ _ => Except ExecFailure JsString
  | .worktreeList _ => Except ExecFailure JsString
  | .worktreeAdd _ _ => Except ExecFailure Unit
  | .now => Except JsError JsString
  | .createWorkspaceId => Except JsError WorkspaceId
  | .delay _ => Unit

abbrev Async := Process.Async Call Answer Thrown

def sql (s : Statement) : Async s.Result := .request (.sql s) fun r => r.mapError .error

def realpath (path : JsString) : Async JsString := .request (.realpath path) fun r =>
  r.mapError .errno

def stat (path : JsString) : Async BigIntStats := .request (.stat path) fun r => r.mapError .errno

def lstat (path : JsString) : Async Unit := .request (.lstat path) fun r => r.mapError .errno

def mkdir (path : JsString) : Async Unit := .request (.mkdir path) fun r => r.mapError .errno

def now : Async JsString := .request .now fun r => r.mapError .error

def createWorkspaceId : Async WorkspaceId := .request .createWorkspaceId fun r =>
  r.mapError .error

def delay (milliseconds : Nat) : Async Unit := .request (.delay milliseconds) .ok

/-- A check that needs no call. -/
def ofExcept {α : Type} (r : Except JsError α) : Async α :=
  ExceptT.mk (.done (r.mapError .error))

/-- `throw new WorkspaceRegistryError(code, path, message)`. -/
def fail {α : Type} (code : Code) (path message : JsString) : Async α :=
  throw (.registry { code, path, message })

/-- `if (error instanceof GitWorktreeError) throw new
WorkspaceRegistryError(error.code, path, error.message)`. -/
def mapGitError (path : JsString) : Thrown → Thrown
  | .git e => .registry ⟨e.code, path, e.message⟩
  | e => e

end Benchhand.Workspace
