/-
Benchhand.Workspace.Registry — WorkspaceRegistry: open and get.

The functions are those of the class, in its order of calls: between two calls
other registries run, in this process or another. `openWorktree` is cut where
the source has its `try` blocks: `resolveSource` finds what a worktree is made
of, `openExisting` uses the managed row that is there, and `openPath`,
`openBranch` and `createWorktree` are for a key that has none.
-/
import Benchhand.Workspace.GitWorktree

namespace Benchhand.Workspace

open Text Js Posix Contracts

def WORKTREE_INFLIGHT_RECONCILE_ATTEMPTS : Nat := 40

def WORKTREE_INFLIGHT_RECONCILE_DELAY_MS : Nat := 25

/-- What the package uses of its libraries: the lengths of typebox and the
hexadecimal SHA-256 of `node:crypto`. -/
structure Libraries where
  lengths : Lengths
  sha256 : Bytes → JsString

structure WorkspaceRegistry where
  ownerInstance : Option JsString
  worktreeRoot : Option JsString
  /-- `process.cwd()`, which `resolve` starts from. -/
  cwd : JsString
  owner_ne : ownerInstance ≠ some []

/-- `new WorkspaceRegistry(database, options)`. -/
def WorkspaceRegistry.create (cwd : JsString) (ownerInstance worktreeRoot : Option JsString) :
    Except JsError WorkspaceRegistry :=
  if h : ownerInstance = some [] then
    .error (.typeError (js "ownerInstance must not be empty"))
  else
    .ok ⟨ownerInstance, worktreeRoot.map fun root => resolve [cwd, root], cwd, h⟩

structure WorkspaceOpenOptions where
  mode : Option WorkspaceMode
  baseRef : Option JsString

/-! ## Paths -/

/-- `classifyOpenPathError(path, error)`. -/
def classifyOpenPathError (path : JsString) (error : Thrown) : Thrown :=
  if hasErrnoCode error "ENOENT" then
    .registry ⟨.workspacePathNotFound, path, js "workspace path does not exist: " ++ path⟩
  else if hasErrnoCode error "EACCES" || hasErrnoCode error "EPERM" then
    .registry ⟨.workspacePathInaccessible, path, js "workspace path is inaccessible: " ++ path⟩
  else if hasErrnoCode error "ENOTDIR" then
    .registry ⟨.workspacePathNotDirectory, path,
      js "workspace path is not a directory: " ++ path⟩
  else .registry ⟨.workspacePathFailure, path, error.message⟩

/-- `filesystemIdentityFromStats(stats)`. -/
def filesystemIdentityFromStats (stats : BigIntStats) : JsString :=
  js (toString stats.dev) ++ ch ':' :: js (toString stats.ino) ++ ch ':' ::
    js (toString stats.birthtimeNs)

/-- `resolveWorkspaceDirectory(requestedPath)`: the canonical path and the
identity. -/
def resolveWorkspaceDirectory (requestedPath : JsString) : Async (JsString × JsString) := do
  let canonicalPath ← (realpath requestedPath).mapError (classifyOpenPathError requestedPath)
  let stats ← (stat canonicalPath).mapError (classifyOpenPathError requestedPath)
  if !stats.isDirectory then
    fail .workspacePathNotDirectory requestedPath
      (js "workspace path is not a directory: " ++ requestedPath)
  else return (canonicalPath, filesystemIdentityFromStats stats)

/-- A directory and those above it, up to the root; a path has not more of
them than characters. -/
def ancestorsFrom (root : JsString) : Nat → JsString → List JsString
  | 0, _ => []
  | fuel + 1, current =>
      current ::
        if current = root ∨ dirname current = current then []
        else ancestorsFrom root fuel (dirname current)

def ancestors (path : JsString) : List JsString :=
  ancestorsFrom (if isAbsolute path then [slash] else []) (path.length + 2) path

/-- The loop of `findRepoRoot`, over the directories it looks into. -/
def findRepoRootIn : List JsString → Async (Option JsString)
  | [] => return none
  | current :: rest =>
      tryCatch (do
        lstat (join current (js ".git"))
        return some current) fun e =>
        if hasErrnoCode e "ENOENT" || hasErrnoCode e "ENOTDIR" then findRepoRootIn rest
        else if hasErrnoCode e "EACCES" || hasErrnoCode e "EPERM" then return none
        else throw e

/-- `findRepoRoot(canonicalPath)`. -/
def findRepoRoot (canonicalPath : JsString) : Async (Option JsString) :=
  findRepoRootIn (ancestors canonicalPath)

/-- `inspectPersistedWorkspacePath(canonicalPath, expectedFilesystemIdentity)`. -/
def inspectPersistedWorkspacePath (canonicalPath expectedFilesystemIdentity : JsString) :
    Async WorkspaceStatus :=
  tryCatch (do
    let stats ← stat canonicalPath
    if !stats.isDirectory then return .invalid
    else if filesystemIdentityFromStats stats = expectedFilesystemIdentity then return .available
    else return .invalid) fun e =>
    if hasErrnoCode e "ENOENT" || hasErrnoCode e "ENOTDIR" then return .missing
    else if hasErrnoCode e "EACCES" || hasErrnoCode e "EPERM" then return .inaccessible
    else throw e

/-- `join(base, ...names)` with non-empty arguments. -/
def joinAll (base : JsString) (names : List JsString) : JsString :=
  normalize (joinSegments (base :: names))

/-- The loop of `canonicalizePotentialPath`. -/
def canonicalizeFrom : Nat → JsString → List JsString → Async JsString
  | fuel, cursor, suffix =>
      tryCatch (do
        let canonicalExisting ← realpath cursor
        if suffix = [] then return canonicalExisting else return joinAll canonicalExisting suffix)
        fun e =>
          if !hasErrnoCode e "ENOENT" || dirname cursor == cursor then throw e
          else
            match fuel with
            | 0 => throw e
            | fuel + 1 => canonicalizeFrom fuel (dirname cursor) (basename cursor :: suffix)

/-- `canonicalizePotentialPath(path)`. A path has not more directories above it
than characters. -/
def canonicalizePotentialPath (cwd path : JsString) : Async JsString :=
  let cursor := resolve [cwd, path]
  canonicalizeFrom cursor.length cursor []

/-- `isSameOrDescendantPath(parent, candidate)`. -/
def isSameOrDescendantPath (parent candidate : JsString) : Bool :=
  let pathFromParent := relative parent candidate
  pathFromParent == [] ||
    (pathFromParent != dotDot && !(dotDot ++ [slash]).isPrefixOf pathFromParent &&
      !isAbsolute pathFromParent)

/-! ## Names -/

/-- `worktreeOwnershipKey(sourceFilesystemIdentity, baseCommit)`. -/
def worktreeOwnershipKey (lib : Libraries) (sourceFilesystemIdentity baseCommit : JsString) :
    JsString :=
  (lib.sha256 (encodeUtf8 sourceFilesystemIdentity ++ 0 :: encodeUtf8 baseCommit)).take 20

/-- `benchhand/${ownershipKey}`. -/
def worktreeBranch (ownershipKey : JsString) : JsString := js "benchhand/" ++ ownershipKey

/-- `benchhand:${ownershipKey}`. -/
def lockReason (ownershipKey : JsString) : JsString := js "benchhand:" ++ ownershipKey

/-- `refs/heads/${branch}`. -/
def branchRef (branch : JsString) : JsString := js "refs/heads/" ++ branch

/-! ## Rows -/

variable (lib : Libraries) (registry : WorkspaceRegistry)

def WorkspaceRow.fields (workspaceId : JsString) (row : WorkspaceRow) : WorkspaceRecord where
  workspaceId := workspaceId
  canonicalPath := row.canonicalPath
  requestedPath := row.requestedPath
  mode := row.mode
  repoRoot := row.repoRoot
  worktreePath := row.worktreePath
  baseRef := row.baseRef
  branch := row.branch
  createdAt := row.createdAt
  lastUsedAt := row.lastUsedAt
  ownerInstance := row.ownerInstance
  status := row.status
  metadataVersion := row.metadataVersion

/-- `rowToWorkspaceRecord(row)`. -/
def rowToWorkspaceRecord (workspaceId : JsString) (row : WorkspaceRow) :
    Except JsError WorkspaceRecord :=
  parseWorkspaceRecord lib.lengths (row.fields workspaceId)

/-- `#read(workspaceId)`. -/
def read (workspaceId : JsString) : Async (Option WorkspaceRecord) := do
  let row : Option WorkspaceRow ← sql (.selectWorkspace workspaceId)
  match row with
  | none => return none
  | some row => return some (← ofExcept (rowToWorkspaceRecord lib workspaceId row))

def disappearedError (workspaceId : JsString) : Thrown :=
  .error (.error (js "workspace " ++ workspaceId ++ js " disappeared from registry"))

/-- `#readRequired(workspaceId)`. -/
def readRequired (workspaceId : JsString) : Async WorkspaceRecord := do
  match ← read lib workspaceId with
  | none => throw (disappearedError workspaceId)
  | some workspace => return workspace

/-- `#readFilesystemIdentity(workspaceId)`. -/
def readFilesystemIdentity (workspaceId : JsString) : Async JsString := do
  let row : Option WorkspaceRow ← sql (.selectWorkspace workspaceId)
  match row with
  | none => throw (disappearedError workspaceId)
  | some row => return row.filesystemIdentity

/-- `#appendWorktreeJournal(ownershipKey, null, action, details)`. -/
def appendWorktreeJournal (ownershipKey : JsString) (action : JournalAction)
    (details : List (String × JsString)) : Async Unit :=
  sql (.append ⟨ownershipKey, none, action, details⟩)

/-- `#hasWorktreeJournalAction(ownershipKey, action)`. -/
def hasWorktreeJournalAction (ownershipKey : JsString) (action : JournalAction) : Async Bool :=
  sql (.selectEvent ownershipKey action)

/-! ## Registering a worktree -/

/-- `#registerManagedWorktree(registration, journalAction)`. -/
def registerManagedWorktree (registration : ManagedWorktreeRegistration)
    (journalAction : JournalAction) : Async WorkspaceRecord := do
  let (canonicalPath, filesystemIdentity) ← resolveWorkspaceDirectory registration.worktreePath
  let timestamp ← now
  let candidateWorkspaceId ← createWorkspaceId
  let workspaceId : JsString ← sql (.register
    { registration, canonicalPath, filesystemIdentity,
      candidateWorkspaceId := candidateWorkspaceId.text, timestamp,
      ownerInstance := registry.ownerInstance, journalAction })
  readRequired lib workspaceId

/-- The fields of an entry of git's list that say whose worktree it is. -/
def ManagedWorktreeRegistration.owns (registration : ManagedWorktreeRegistration)
    (worktree : GitWorktreeInfo) : Bool :=
  worktree.head.map toLowerAscii == some registration.baseCommit &&
    worktree.branch == some (branchRef registration.branch) &&
    worktree.lockedReason == some (lockReason registration.ownershipKey)

/-- The loop over git's list: is the worktree of the registration in it? -/
def listsWorktree (registration : ManagedWorktreeRegistration)
    (canonicalExpectedPath : JsString) : List GitWorktreeInfo → Async Bool
  | [] => return false
  | worktree :: worktrees => do
      let canonicalGitPath ← tryCatch (some <$> realpath worktree.path) fun _ => return none
      if canonicalGitPath = some canonicalExpectedPath ∧ registration.owns worktree then
        return true
      else listsWorktree registration canonicalExpectedPath worktrees

/-- `#tryReconcilePartialWorktree(registration)`. -/
def tryReconcilePartialWorktree (registration : ManagedWorktreeRegistration) :
    Async (Option WorkspaceRecord) := do
  if !(← hasWorktreeJournalAction registration.ownershipKey .createIntent) then return none
  else
    match ← tryCatch (some <$> realpath registration.worktreePath) fun _ => return none with
    | none => return none
    | some canonicalExpectedPath =>
        let worktrees ←
          (listGitWorktrees registration.repoRoot).mapError (mapGitError registration.repoRoot)
        if ← listsWorktree registration canonicalExpectedPath worktrees then
          return some (← registerManagedWorktree lib registry registration .reconciled)
        else return none

/-- `#waitForInflightWorktree(registration)`, with `attempts` of its loop to
come. -/
def waitForInflightWorktree (registration : ManagedWorktreeRegistration) :
    Nat → Async (Option WorkspaceRecord)
  | 0 => tryReconcilePartialWorktree lib registry registration
  | attempts + 1 => do
      match ← tryReconcilePartialWorktree lib registry registration with
      | some reconciled => return some reconciled
      | none =>
          if (← hasWorktreeJournalAction registration.ownershipKey .createFailed) then return none
          else if (← hasWorktreeJournalAction registration.ownershipKey .cleanupIntent) then
            return none
          else do
            if attempts ≠ 0 then delay WORKTREE_INFLIGHT_RECONCILE_DELAY_MS
            waitForInflightWorktree registration attempts

/-! ## open -/

def cleanupRequired {α : Type} (row : ManagedWorktreeRow) : Async α :=
  fail .worktreeCleanupRequired row.worktreePath
    (js "managed worktree requires explicit cleanup or recovery: " ++ row.worktreePath)

/-- A managed row is there: its workspace is used again, or given up. -/
def openExisting (ownershipKey absoluteRequestedPath : JsString)
    (existing : ManagedWorktreeRow) : Async WorkspaceRecord := do
  if existing.status = .cleanupRequired then cleanupRequired existing
  else
    match ← read lib (← ofExcept (parseEntityId "workspace" existing.workspaceId)) with
    | some workspace =>
        let identity ← readFilesystemIdentity workspace.workspaceId
        let status ← inspectPersistedWorkspacePath workspace.canonicalPath identity
        if status = .available then
          let timestamp ← now
          sql (.reuse workspace.workspaceId absoluteRequestedPath timestamp registry.ownerInstance)
          readRequired lib workspace.workspaceId
        else giveUp
    | none => giveUp
where
  giveUp : Async WorkspaceRecord := do
    let timestamp ← now
    sql (.requireCleanup ownershipKey existing.workspaceId timestamp)
    cleanupRequired existing

/-- The `try` block on the managed path; none when nothing is there. -/
def openPath (registration : ManagedWorktreeRegistration) : Async (Option WorkspaceRecord) :=
  tryCatch (do
    lstat registration.worktreePath
    match ← tryReconcilePartialWorktree lib registry registration with
    | some reconciled => return some reconciled
    | none =>
        fail .worktreePathOccupied registration.worktreePath
          (js "managed worktree path is already occupied without matching ownership: " ++
            registration.worktreePath)) fun e =>
    match e with
    | .registry _ => throw e
    | _ =>
        if !hasErrnoCode e "ENOENT" then
          throw (classifyOpenPathError registration.worktreePath e)
        else return none

/-- `canStillBeInFlight`: the branch is one that another creation has just
made. -/
def canStillBeInFlight (registration : ManagedWorktreeRegistration)
    (existingBranchCommit : JsString) : Async Bool := do
  if existingBranchCommit ≠ registration.baseCommit then return false
  else
    let failed ← hasWorktreeJournalAction registration.ownershipKey .createFailed
    if failed then return false
    else
      let cleanup ← hasWorktreeJournalAction registration.ownershipKey .cleanupIntent
      return !cleanup

/-- What is left to do about a branch that is no creation in flight. -/
def requireBranchCleanup (registration : ManagedWorktreeRegistration)
    (existingBranchCommit : JsString) : Async WorkspaceRecord := do
  let recorded ← hasWorktreeJournalAction registration.ownershipKey .cleanupIntent
  if !recorded then
    appendWorktreeJournal registration.ownershipKey .cleanupIntent
      [("reason", js "orphaned-managed-branch"), ("branch", registration.branch),
        ("branchCommit", existingBranchCommit)]
  fail .worktreeCleanupRequired registration.repoRoot
    (js "managed worktree branch requires explicit cleanup or recovery: " ++ registration.branch)

/-- The branch is there: another creation is waited for, or has to be cleaned
up after. -/
def openOccupiedBranch (registration : ManagedWorktreeRegistration)
    (existingBranchCommit : JsString) : Async WorkspaceRecord := do
  let intended ← hasWorktreeJournalAction registration.ownershipKey .createIntent
  if intended then
    let inFlight ← canStillBeInFlight registration existingBranchCommit
    if inFlight then
      match ← waitForInflightWorktree lib registry registration
          WORKTREE_INFLIGHT_RECONCILE_ATTEMPTS with
      | some reconciled => return reconciled
      | none => requireBranchCleanup registration existingBranchCommit
    else requireBranchCleanup registration existingBranchCommit
  else
    fail .worktreeBranchOccupied registration.repoRoot
      (js "managed worktree branch is already occupied without durable ownership: " ++
        registration.branch)

/-- The check of the branch; none when there is no such branch. -/
def openBranch (registration : ManagedWorktreeRegistration) : Async (Option WorkspaceRecord) := do
  let existingBranchCommit ← (readLocalBranchCommit registration.repoRoot
    registration.branch).mapError (mapGitError registration.repoRoot)
  match existingBranchCommit with
  | some commit => return some (← openOccupiedBranch lib registry registration commit)
  | none => return none

/-- The creation of the worktree. -/
def createWorktree (registration : ManagedWorktreeRegistration) : Async WorkspaceRecord := do
  appendWorktreeJournal registration.ownershipKey .createIntent
    [("repoRoot", registration.repoRoot), ("requestedBaseRef", registration.requestedBaseRef),
      ("baseCommit", registration.baseCommit), ("branch", registration.branch),
      ("worktreePath", registration.worktreePath)]
  let reconciled ← tryCatch (do
    createLockedWorktree
      { repoRoot := registration.repoRoot, worktreePath := registration.worktreePath,
        branch := registration.branch, baseCommit := registration.baseCommit,
        ownershipKey := registration.ownershipKey }
    return none) fun e => do
      match ← tryReconcilePartialWorktree lib registry registration with
      | some reconciled => return some reconciled
      | none => do
          appendWorktreeJournal registration.ownershipKey .createFailed [("message", e.message)]
          throw (mapGitError registration.worktreePath e)
  match reconciled with
  | some reconciled => return reconciled
  | none => registerManagedWorktree lib registry registration .created

/-- What a worktree is made of. -/
structure WorktreeSource where
  absoluteRequestedPath : JsString
  repoRoot : JsString
  managedRoot : JsString
  sourceFilesystemIdentity : JsString
  requestedBaseRef : JsString
  baseCommit : JsString
  deriving DecidableEq

/-- `#openWorktree`, up to the ownership key. -/
def resolveSource (requestedPath requestedBaseRef : JsString) : Async WorktreeSource := do
  let absoluteRequestedPath := resolve [registry.cwd, requestedPath]
  let (sourcePath, _) ← resolveWorkspaceDirectory absoluteRequestedPath
  match ← findRepoRoot sourcePath with
  | none =>
      fail .worktreeRepoRequired absoluteRequestedPath
        (js "worktree mode requires a Git repository: " ++ absoluteRequestedPath)
  | some repoRoot =>
      match registry.worktreeRoot with
      | none =>
          fail .worktreeRootUnconfigured absoluteRequestedPath
            (js "worktree mode requires a configured managed worktree root")
      | some worktreeRoot =>
          let managedRoot ← canonicalizePotentialPath registry.cwd worktreeRoot
          if isSameOrDescendantPath repoRoot managedRoot then
            fail .worktreeRootConflict managedRoot
              (js "managed worktree root must not be inside the source repository: " ++
                managedRoot)
          else
            let sourceStats ← stat repoRoot
            let baseCommit ←
              (resolveGitCommit repoRoot requestedBaseRef).mapError (mapGitError requestedBaseRef)
            return { absoluteRequestedPath, repoRoot, managedRoot,
                     sourceFilesystemIdentity := filesystemIdentityFromStats sourceStats,
                     requestedBaseRef, baseCommit }

/-- The registration of a source. -/
def WorktreeSource.registration (source : WorktreeSource) : ManagedWorktreeRegistration :=
  let ownershipKey := worktreeOwnershipKey lib source.sourceFilesystemIdentity source.baseCommit
  { ownershipKey
    absoluteRequestedPath := source.absoluteRequestedPath
    repoRoot := source.repoRoot
    sourceFilesystemIdentity := source.sourceFilesystemIdentity
    requestedBaseRef := source.requestedBaseRef
    baseCommit := source.baseCommit
    branch := worktreeBranch ownershipKey
    worktreePath := join source.managedRoot ownershipKey }

/-- `#openWorktree`, from the ownership key on. -/
def openSource (source : WorktreeSource) : Async WorkspaceRecord := do
  let registration := source.registration lib
  let existing : Option ManagedWorktreeRow ← sql (.selectManaged registration.ownershipKey)
  match existing with
  | some existing =>
      openExisting lib registry registration.ownershipKey source.absoluteRequestedPath existing
  | none =>
      mkdir source.managedRoot
      match ← openPath lib registry registration with
      | some reconciled => return reconciled
      | none =>
          match ← openBranch lib registry registration with
          | some reconciled => return reconciled
          | none => createWorktree lib registry registration

/-- `#openWorktree(requestedPath, requestedBaseRef)`. -/
def openWorktree (requestedPath requestedBaseRef : JsString) : Async WorkspaceRecord := do
  openSource lib registry (← resolveSource registry requestedPath requestedBaseRef)

/-- `open(requestedPath)` in checkout mode. -/
def openCheckout (requestedPath : JsString) : Async WorkspaceRecord := do
  let absoluteRequestedPath := resolve [registry.cwd, requestedPath]
  let (canonicalPath, filesystemIdentity) ← resolveWorkspaceDirectory absoluteRequestedPath
  let repoRoot ← findRepoRoot canonicalPath
  let timestamp ← now
  let candidateId ← createWorkspaceId
  let row : JsString × WorkspaceRow ← sql (.upsertCheckout candidateId.text
    { canonicalPath, requestedPath := absoluteRequestedPath, filesystemIdentity, repoRoot,
      timestamp, ownerInstance := registry.ownerInstance })
  ofExcept (rowToWorkspaceRecord lib row.1 row.2)

/-- `open(requestedPath, options)`. -/
def WorkspaceRegistry.open (requestedPath : JsString) (options : WorkspaceOpenOptions) :
    Async WorkspaceRecord :=
  if requestedPath.length = 0 then
    throw (.error (.typeError (js "workspace path must not be empty")))
  else if options.mode.getD .checkout = .worktree then
    openWorktree lib registry requestedPath (options.baseRef.getD (js "HEAD"))
  else if options.baseRef.isSome then
    fail .workspaceBaseRefRequiresWorktree requestedPath
      (js "baseRef is only valid for worktree mode")
  else openCheckout lib registry requestedPath

/-! ## get -/

/-- `get(workspaceId)`. -/
def get (workspaceId : JsString) : Async (Option WorkspaceRecord) := do
  match ← read lib workspaceId with
  | none => return none
  | some existing =>
      let row : Option WorkspaceRow ← sql (.selectWorkspace workspaceId)
      match row with
      | none => return none
      | some row =>
          let currentStatus ←
            inspectPersistedWorkspacePath existing.canonicalPath row.filesystemIdentity
          if currentStatus ≠ existing.status then
            let changes : Nat ← sql (.setStatus workspaceId currentStatus)
            if changes ≠ 1 then
              throw (.error (.error
                (js "workspace " ++ workspaceId ++ js " disappeared during revalidation")))
            else read lib workspaceId
          else return some existing

end Benchhand.Workspace
