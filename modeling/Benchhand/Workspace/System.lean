/-
Benchhand.Workspace.System — registries over one database, one file system and
git.

A `Site` is what the calls outside the database see: what `realpath`, `stat`
and `lstat` answer for each path, and of each repository the commits, the
branches and the list of worktrees. `handler` answers a call; a `Choice` has
what neither the database nor the site decides. Others can change the whole
site before a call. A directory that is made changes nothing that is there, and
what the file system answers afterwards is up to it.
-/
import Benchhand.Process.Pool
import Benchhand.Workspace.Registry

namespace Benchhand.Workspace

open Text Js Posix Contracts Process

/-! ## Files and repositories -/

/-- What the file system answers. -/
structure Files where
  realpath : JsString → Except Errno JsString
  stat : JsString → Except Errno BigIntStats
  lstat : JsString → Except Errno Node

/-- Something is made, and what was there stays. -/
def Files.extend (files new : Files) : Files where
  realpath := new.realpath
  stat := new.stat
  lstat path :=
    match files.lstat path with
    | .ok node => .ok node
    | .error _ => new.lstat path

structure Site where
  files : Files
  /-- The repository that a root belongs to. -/
  repository : JsString → JsString
  /-- The output of `git rev-parse`. -/
  revision : JsString → JsString → Except ExecFailure JsString
  /-- The commits of the branches, by repository. -/
  branches : JsString → JsString → Option JsString
  worktrees : JsString → List GitWorktreeInfo

structure World where
  db : Database
  site : Site

/-! ## Answers -/

/-- A git process that fails; exit code 1 is how it says that there is no such
branch. -/
structure GitFault where
  failure : ExecFailure
  code_ne : failure.code ≠ some 1

structure Choice where
  /-- Others have changed the site. -/
  evolved : Option Site
  sqlFault : Option JsError
  gitFault : Option GitFault
  mkdirFault : Option Errno
  /-- The file system, if the call makes a directory. -/
  made : Files
  now : Except JsError JsString
  workspaceId : Except JsError WorkspaceId

/-- A call that git or the database may fail. -/
def orFault {α ε : Type} (fault : Option ε) (answer : Except ε α) : Except ε α :=
  match fault with
  | some e => .error e
  | none => answer

def Choice.gitFailure (e : Choice) : Option ExecFailure := e.gitFault.map GitFault.failure

/-- The lines of a record of `git worktree list --porcelain`. -/
def GitWorktreeInfo.lines (worktree : GitWorktreeInfo) : List JsString :=
  (js "worktree " ++ worktree.path) ::
    ((worktree.head.map fun head => js "HEAD " ++ head).toList ++
      [match worktree.branch with
        | some branch => js "branch " ++ branch
        | none => js "detached"] ++
      (worktree.lockedReason.map fun reason =>
        if reason = [] then js "locked" else js "locked " ++ reason).toList ++
      (worktree.prunableReason.map fun reason =>
        if reason = [] then js "prunable" else js "prunable " ++ reason).toList)

/-- A record as git writes it with `-z`. -/
def GitWorktreeInfo.porcelain (worktree : GitWorktreeInfo) : JsString :=
  (worktree.lines.flatMap fun line => line ++ [0]) ++ [0]

/-- The entry of a worktree that `git worktree add` has made. -/
def LockedWorktree.info (worktree : LockedWorktree) (files : Files) : GitWorktreeInfo where
  path := (files.realpath worktree.worktreePath).toOption.getD worktree.worktreePath
  head := some worktree.baseCommit
  branch := some (branchRef worktree.branch)
  lockedReason := some (lockReason worktree.ownershipKey)
  prunableReason := none

namespace Site

variable (site : Site)

def branch? (repoRoot branch : JsString) : Option JsString :=
  site.branches (site.repository repoRoot) branch

/-- What `git worktree list` writes. -/
def listing (repoRoot : JsString) : JsString :=
  (site.worktrees (site.repository repoRoot)).flatMap GitWorktreeInfo.porcelain

/-- `-b` refuses a branch that is there. -/
def addBranch (worktree : LockedWorktree) : Except ExecFailure Unit × Site :=
  match site.branch? worktree.repoRoot worktree.branch with
  | some _ =>
      (.error ⟨some 255, js "fatal: a branch named '" ++ worktree.branch ++ js "' already exists"⟩,
        site)
  | none =>
      (.ok ⟨⟩, { site with
        branches := fun repository branch =>
          if repository = site.repository worktree.repoRoot ∧ branch = worktree.branch then
            some worktree.baseCommit
          else site.branches repository branch })

/-- An empty directory that is there is used, so nothing is asked here. -/
def addDirectory (worktree : LockedWorktree) (made : Files) : Site :=
  { site with
    files :=
      { site.files.extend made with
        lstat := fun path =>
          if path = worktree.worktreePath then .ok .directory
          else (site.files.extend made).lstat path } }

def addEntry (worktree : LockedWorktree) : Site :=
  { site with
    worktrees := fun repository =>
      if repository = site.repository worktree.repoRoot then
        site.worktrees repository ++ [worktree.info site.files]
      else site.worktrees repository }

/-- A step of `git worktree add`. -/
def worktreeAdd (fault : Option ExecFailure) (made : Files) (worktree : LockedWorktree)
    (stage : AddStage) : Except ExecFailure Unit × Site :=
  match fault, stage with
  | some failure, _ => (.error failure, site)
  | none, .branch => site.addBranch worktree
  | none, .directory => (.ok ⟨⟩, site.addDirectory worktree made)
  | none, .entry => (.ok ⟨⟩, site.addEntry worktree)

/-- `mkdir` makes the missing directories. -/
def mkdir (fault : Option Errno) (made : Files) : Except Errno Unit × Site :=
  match fault with
  | some e => (.error e, site)
  | none => (.ok ⟨⟩, { site with files := site.files.extend made })

end Site

/-- The answer to a call, and the world after it. -/
def World.answer (e : Choice) : (c : Call) → World → Answer c × World
  | .sql s, w =>
      match e.sqlFault with
      | some fault => (.error fault, w)
      | none => ((s.run w.db).1, { w with db := (s.run w.db).2 })
  | .realpath path, w => (w.site.files.realpath path, w)
  | .stat path, w => (w.site.files.stat path, w)
  | .lstat path, w => ((w.site.files.lstat path).map fun _ => ⟨⟩, w)
  | .mkdir _, w =>
      ((w.site.mkdir e.mkdirFault e.made).1,
        { w with site := (w.site.mkdir e.mkdirFault e.made).2 })
  | .revParse repoRoot revision, w =>
      (orFault e.gitFailure (w.site.revision repoRoot revision), w)
  | .branchCommit repoRoot branch, w =>
      (orFault e.gitFailure
        (match w.site.branch? repoRoot branch with
          | some commit => .ok (commit ++ [ch '\n'])
          | none => .error ⟨some 1, []⟩), w)
  | .worktreeList repoRoot, w =>
      (orFault e.gitFailure (.ok (w.site.listing repoRoot)), w)
  | .worktreeAdd stage worktree, w =>
      ((w.site.worktreeAdd e.gitFailure e.made worktree stage).1,
        { w with site := (w.site.worktreeAdd e.gitFailure e.made worktree stage).2 })
  | .now, w => (e.now, w)
  | .createWorkspaceId, w => (e.workspaceId, w)
  | .delay _, w => (⟨⟩, w)

/-- What others have changed before the call. -/
def World.evolve (e : Choice) (w : World) : World := { w with site := e.evolved.getD w.site }

def handler (e : Choice) : Handler Call Answer World := fun c w => (w.evolve e).answer e c

/-! ## Requests -/

inductive Request where
  | open (registry : WorkspaceRegistry) (requestedPath : JsString)
      (options : WorkspaceOpenOptions)
  | get (workspaceId : JsString)

/-- What a call of the registry ends with; `get` may find nothing. -/
abbrev Outcome := Except Thrown (Option WorkspaceRecord)

def Request.program (lib : Libraries) : Request → Prog Call Answer Outcome
  | .open registry requestedPath options =>
      (some <$> registry.open lib requestedPath options : Async (Option WorkspaceRecord)).run
  | .get workspaceId => (Workspace.get lib workspaceId).run

/-- Calls of registries, on any number of connections. -/
abbrev System := Pool Request Call Answer World Outcome

abbrev System.step (lib : Libraries) : System → Pool.Action Request Choice → System :=
  Pool.step (Request.program lib) handler

abbrev System.run (lib : Libraries) (s : System) (actions : List (Pool.Action Request Choice)) :
    System := runFrom (System.step lib) s actions

/-- The code that a request was rejected with. -/
def System.rejected (s : System) (i : Nat) : Option Code :=
  match s.threads[i]?.bind fun t => t.rest.result? with
  | some (.error (.registry e)) => some e.code
  | _ => none

/-- The workspace that a request was resolved with. -/
def System.opened (s : System) (i : Nat) : Option JsString :=
  match s.threads[i]?.bind fun t => t.rest.result? with
  | some (.ok (some record)) => some record.workspaceId
  | _ => none

/-! ## One repository -/

namespace Sample

/-- typebox and a digest that gives every key the same name. -/
def libraries : Libraries where
  lengths := .codeUnits
  sha256 _ := js "k"

def absent : Errno := ⟨js "ENOENT", js "ENOENT"⟩

/-- A repository at `/r` and a managed root at `/m`. -/
def files : Files where
  realpath path := if path = js "/r" ∨ path = js "/m" then .ok path else .error absent
  stat path :=
    if path = js "/r" ∨ path = js "/m" then .ok ⟨true, 1, path.length, 0⟩ else .error absent
  lstat path := if path = js "/r/.git" then .ok .directory else .error absent

/-- The files with the managed worktree. -/
def made : Files where
  realpath path := .ok path
  stat path := .ok ⟨true, 1, path.length, 0⟩
  lstat _ := .error absent

def commit : JsString := List.replicate 40 (ch 'a')

def site : Site where
  files
  repository root := root
  revision _ _ := .ok (commit ++ [ch '\n'])
  branches _ _ := none
  worktrees _ := []

/-- No call yet. -/
def system : System := ⟨⟨Database.migrated .empty .empty, site⟩, []⟩

def registry : WorkspaceRegistry := ⟨none, some (js "/m"), js "/", nofun⟩

/-- `open('/r', { mode: 'worktree' })`. -/
def worktree : Pool.Action Request Choice :=
  .start (.open registry (js "/r") ⟨some .worktree, none⟩)

/-- Nothing fails; a new workspace has this id. -/
def choice (id : Char) : Choice where
  evolved := none
  sqlFault := none
  gitFault := none
  mkdirFault := none
  made
  now := .ok (js "now")
  workspaceId := .ok ⟨[ch id], nofun⟩

/-- `n` calls of request `i`. -/
def calls (i : Nat) (id : Char) (n : Nat) : List (Pool.Action Request Choice) :=
  (List.replicate n (choice id)).map (.call i)

end Sample

end Benchhand.Workspace
