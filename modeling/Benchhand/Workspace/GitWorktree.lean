/-
Benchhand.Workspace.GitWorktree — the functions that run git.

`parseWorktreePorcelain` reads git's list of worktrees, whose lines end with
NUL and whose records end with an empty line.
-/
import Benchhand.Js.Json
import Benchhand.Workspace.Call

namespace Benchhand.Workspace

open Text Js

/-! ## Strings -/

/-- WhiteSpace and LineTerminator of ECMAScript. -/
def isTrimmed (u : UInt16) : Bool :=
  let n := u.toNat
  (9 ≤ n && n ≤ 13) || n == 0x20 || n == 0xA0 || n == 0x1680 || (0x2000 ≤ n && n ≤ 0x200A) ||
    n == 0x2028 || n == 0x2029 || n == 0x202F || n == 0x205F || n == 0x3000 || n == 0xFEFF

/-- `s.trim()`. -/
def trim (s : JsString) : JsString :=
  ((s.dropWhile isTrimmed).reverse.dropWhile isTrimmed).reverse

/-- `[0-9a-f]`, in either case. -/
def isHexUnit (u : UInt16) : Bool :=
  (ch '0' ≤ u && u ≤ ch '9') || (ch 'a' ≤ u && u ≤ ch 'f') || (ch 'A' ≤ u && u ≤ ch 'F')

/-- `/^[0-9a-f]{40,64}$/i.test(commit)`. -/
def isCommitId (commit : JsString) : Bool :=
  40 ≤ commit.length && commit.length ≤ 64 && commit.all isHexUnit

/-- `s.toLowerCase()` of a string of ASCII characters. -/
def toLowerAscii (s : JsString) : JsString :=
  s.map fun u => if ch 'A' ≤ u ∧ u ≤ ch 'Z' then u + 32 else u

/-- `JSON.stringify(s)`. -/
def stringify (s : JsString) : JsString := quote s

/-! ## Running git -/

/-- `runGit(cwd, args, errorCode)`: `command` is the first argument. -/
def gitFailure (command : String) (code : Code) (failure : ExecFailure) : Thrown :=
  .git ⟨code,
    if 0 < failure.stderr.length then trim failure.stderr
    else js "git " ++ js command ++ js " failed", failure.stderr⟩

/-- `resolveGitCommit(repoRoot, baseRef)`. -/
def resolveGitCommit (repoRoot baseRef : JsString) : Async JsString :=
  if baseRef.length = 0 then
    throw (.git ⟨.worktreeBaseRefInvalid, js "baseRef must not be empty", []⟩)
  else do
    let stdout ← .request (.revParse repoRoot (baseRef ++ js "^\x7bcommit\x7d")) fun r =>
      r.mapError (gitFailure "rev-parse" .worktreeBaseRefInvalid)
    let commit := trim stdout
    if !isCommitId commit then
      throw (.git ⟨.worktreeBaseRefInvalid,
        js "Git resolved an invalid commit id for baseRef " ++ stringify baseRef, []⟩)
    else return toLowerAscii commit

/-- `readLocalBranchCommit(repoRoot, branch)`: none when git exits with 1. -/
def readLocalBranchCommit (repoRoot branch : JsString) : Async (Option JsString) :=
  .request (.branchCommit repoRoot branch) fun
    | .ok stdout =>
        let commit := trim stdout
        if !isCommitId commit then
          .error (.git ⟨.worktreeBranchCheckFailed,
            js "Git resolved an invalid commit id for branch " ++ stringify branch, []⟩)
        else .ok (some (toLowerAscii commit))
    | .error failure =>
        if failure.code = some 1 then .ok none
        else
          .error (.git ⟨.worktreeBranchCheckFailed,
            if 0 < failure.stderr.length then trim failure.stderr
            else js "failed to inspect branch " ++ stringify branch, failure.stderr⟩)

/-- One step of the process that `createLockedWorktree` waits for. -/
def worktreeAdd (stage : AddStage) (worktree : LockedWorktree) : Async Unit :=
  .request (.worktreeAdd stage worktree) fun r =>
    r.mapError (gitFailure "worktree" .worktreeCreateFailed)

/-- `createLockedWorktree(options)`. -/
def createLockedWorktree (worktree : LockedWorktree) : Async Unit := do
  worktreeAdd .branch worktree
  worktreeAdd .directory worktree
  worktreeAdd .entry worktree

/-! ## The list of worktrees -/

structure GitWorktreeInfo where
  path : JsString
  head : Option JsString
  branch : Option JsString
  lockedReason : Option JsString
  prunableReason : Option JsString
  deriving DecidableEq

/-- `token.startsWith(key) ? token.slice(key.length) : undefined`. -/
def afterKey? (key : String) (token : JsString) : Option JsString :=
  if (js key).isPrefixOf token then some (token.drop (js key).length) else none

/-- One line of a record, before the next. -/
def GitWorktreeInfo.line (current : GitWorktreeInfo) (token : JsString) : GitWorktreeInfo :=
  match afterKey? "HEAD " token with
  | some head => { current with head := some head }
  | none =>
  match afterKey? "branch " token with
  | some branch => { current with branch := some branch }
  | none =>
  if token = js "locked" then { current with lockedReason := some [] }
  else
  match afterKey? "locked " token with
  | some reason => { current with lockedReason := some reason }
  | none =>
  if token = js "prunable" then { current with prunableReason := some [] }
  else
  match afterKey? "prunable " token with
  | some reason => { current with prunableReason := some reason }
  | none => current

/-- One token of the output: the finished records, and the one that is read. -/
def porcelainToken (state : List GitWorktreeInfo × Option GitWorktreeInfo) (token : JsString) :
    List GitWorktreeInfo × Option GitWorktreeInfo :=
  if token = [] then (state.1 ++ state.2.toList, none)
  else
    match afterKey? "worktree " token with
    | some path => (state.1 ++ state.2.toList, some ⟨path, none, none, none, none⟩)
    | none => (state.1, state.2.map fun current => current.line token)

/-- `parseWorktreePorcelain(output)`. -/
def parseWorktreePorcelain (output : JsString) : List GitWorktreeInfo :=
  let (worktrees, current) := (output.splitOn 0).foldl porcelainToken ([], none)
  worktrees ++ current.toList

/-- `listGitWorktrees(repoRoot)`. -/
def listGitWorktrees (repoRoot : JsString) : Async (List GitWorktreeInfo) :=
  .request (.worktreeList repoRoot) fun r =>
    (r.mapError (gitFailure "worktree" .worktreeListFailed)).map parseWorktreePorcelain

end Benchhand.Workspace
