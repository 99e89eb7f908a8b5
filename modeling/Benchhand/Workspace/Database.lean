/-
Benchhand.Workspace.Database — the tables of the workspace registry.

`Database` has the three tables that WORKTREE_MANAGER_MIGRATION leaves, with
their UNIQUE and REFERENCES constraints as fields: a statement that would break
one throws and changes nothing. `Statement` lists the statements and
transactions of the registry; `Statement.run` is one of them, as a whole.
worktree_cleanup_journal is the list of its rows in the order of event_id; its
time column is written by the database and never read.
-/
import Benchhand.Contracts.JsonValue
import Benchhand.Contracts.WorkspaceRecord
import Benchhand.Store.Table

namespace Benchhand.Workspace

open Text Js Contracts Store

/-! ## Rows -/

/-- A row of workspace_registry; its key is workspace_id. -/
structure WorkspaceRow where
  canonicalPath : JsString
  requestedPath : JsString
  filesystemIdentity : JsString
  mode : WorkspaceMode
  repoRoot : Option JsString
  worktreePath : Option JsString
  baseRef : Option JsString
  branch : Option JsString
  createdAt : JsString
  lastUsedAt : JsString
  ownerInstance : Option JsString
  status : WorkspaceStatus
  metadataVersion : Nat
  deriving DecidableEq

/-- `UNIQUE(canonical_path, filesystem_identity, mode)`. -/
def WorkspaceRow.handle (row : WorkspaceRow) : JsString × JsString × WorkspaceMode :=
  (row.canonicalPath, row.filesystemIdentity, row.mode)

inductive ManagedStatus where
  | active
  | cleanupRequired
  deriving DecidableEq

/-- A row of managed_worktrees; its key is ownership_key. -/
structure ManagedWorktreeRow where
  workspaceId : JsString
  sourceRepoRoot : JsString
  sourceFilesystemIdentity : JsString
  requestedBaseRef : JsString
  baseCommit : JsString
  branch : JsString
  worktreePath : JsString
  status : ManagedStatus
  createdAt : JsString
  updatedAt : JsString
  deriving DecidableEq

/-- `UNIQUE(source_filesystem_identity, base_commit)`. -/
def ManagedWorktreeRow.source (row : ManagedWorktreeRow) : JsString × JsString :=
  (row.sourceFilesystemIdentity, row.baseCommit)

/-- `SET status = 'cleanup-required', updated_at = ?`. -/
def ManagedWorktreeRow.requireCleanup (updatedAt : JsString) (row : ManagedWorktreeRow) :
    ManagedWorktreeRow :=
  { row with status := .cleanupRequired, updatedAt }

inductive JournalAction where
  | createIntent
  | created
  | createFailed
  | cleanupIntent
  | cleaned
  | cleanupFailed
  | reconciled
  deriving DecidableEq

/-- A row of worktree_cleanup_journal; `details` is the object that
details_json encodes. -/
structure JournalEvent where
  ownershipKey : JsString
  workspaceId : Option JsString
  action : JournalAction
  details : List (String × JsString)
  deriving DecidableEq

/-! ## Tables -/

structure Database where
  workspaces : Table JsString WorkspaceRow
  managed : Table JsString ManagedWorktreeRow
  journal : List JournalEvent
  handle_unique : workspaces.UniqueOn WorkspaceRow.handle
  workspaceId_unique : managed.UniqueOn ManagedWorktreeRow.workspaceId
  branch_unique : managed.UniqueOn ManagedWorktreeRow.branch
  path_unique : managed.UniqueOn ManagedWorktreeRow.worktreePath
  source_unique : managed.UniqueOn ManagedWorktreeRow.source
  references : ∀ key row, managed.find? key = some row →
    (workspaces.find? row.workspaceId).isSome = true

/-- The tables as the migrations create them, with the checkouts that
workspace_registry had before. -/
def Database.migrated (checkouts : Table JsString WorkspaceRow)
    (h : checkouts.UniqueOn WorkspaceRow.handle) : Database where
  workspaces := checkouts
  managed := .empty
  journal := []
  handle_unique := h
  workspaceId_unique := .empty
  branch_unique := .empty
  path_unique := .empty
  source_unique := .empty
  references := nofun

/-- The exception of a statement that breaks a constraint. -/
def constraintError (table : String) : JsError :=
  ⟨js "SqliteError", js "constraint failed: " ++ js table⟩

namespace Database

variable (db : Database)

theorem isSome_find?_updateWhere {guard : JsString → WorkspaceRow → Bool}
    {f : WorkspaceRow → WorkspaceRow} (key : JsString) (row : ManagedWorktreeRow)
    (h : db.managed.find? key = some row) :
    ((db.workspaces.updateWhere guard f).1.find? row.workspaceId).isSome = true := by
  rw [Table.find?_updateWhere, Option.isSome_map]
  exact db.references key row h

/-- `UPDATE workspace_registry SET … WHERE workspace_id = ?`, of columns that
are in no constraint. -/
def updateWorkspace (workspaceId : JsString) (f : WorkspaceRow → WorkspaceRow)
    (hf : ∀ row, (f row).handle = row.handle) : Database × Nat :=
  ({ db with
      workspaces := (db.workspaces.updateKey workspaceId (fun _ => true) f).1
      handle_unique := db.handle_unique.updateKey hf _ _
      references := db.isSome_find?_updateWhere },
    (db.workspaces.updateKey workspaceId (fun _ => true) f).2)

theorem isSome_find?_insert {workspaceId : JsString} {row : WorkspaceRow}
    {workspaces : Table JsString WorkspaceRow}
    (h : db.workspaces.insert? workspaceId row = some workspaces) (key : JsString)
    (managed : ManagedWorktreeRow) (hkey : db.managed.find? key = some managed) :
    (workspaces.find? managed.workspaceId).isSome = true := by
  rw [(Table.find?_insert? h).2]
  split
  · rfl
  · exact db.references key managed hkey

/-- `INSERT INTO workspace_registry`. -/
def insertWorkspace (workspaceId : JsString) (row : WorkspaceRow) : Except JsError Database :=
  if hfree : db.workspaces.findBy? WorkspaceRow.handle row.handle = none then
    match h : db.workspaces.insert? workspaceId row with
    | some workspaces =>
        .ok { db with
          workspaces
          handle_unique := db.handle_unique.insert hfree h
          references := db.isSome_find?_insert h }
    | none => .error (constraintError "workspace_registry.workspace_id")
  else .error (constraintError "workspace_registry.canonical_path")

/-- No row of managed_worktrees has a unique column of this one. -/
structure Free (row : ManagedWorktreeRow) : Prop where
  workspaceId : db.managed.findBy? ManagedWorktreeRow.workspaceId row.workspaceId = none
  branch : db.managed.findBy? ManagedWorktreeRow.branch row.branch = none
  path : db.managed.findBy? ManagedWorktreeRow.worktreePath row.worktreePath = none
  source : db.managed.findBy? ManagedWorktreeRow.source row.source = none
  reference : (db.workspaces.find? row.workspaceId).isSome = true

instance (row : ManagedWorktreeRow) : Decidable (db.Free row) :=
  decidable_of_iff
    (db.managed.findBy? ManagedWorktreeRow.workspaceId row.workspaceId = none ∧
      db.managed.findBy? ManagedWorktreeRow.branch row.branch = none ∧
      db.managed.findBy? ManagedWorktreeRow.worktreePath row.worktreePath = none ∧
      db.managed.findBy? ManagedWorktreeRow.source row.source = none ∧
      (db.workspaces.find? row.workspaceId).isSome = true)
    ⟨fun h => ⟨h.1, h.2.1, h.2.2.1, h.2.2.2.1, h.2.2.2.2⟩,
      fun h => ⟨h.workspaceId, h.branch, h.path, h.source, h.reference⟩⟩

theorem references_insert {key : JsString} {row : ManagedWorktreeRow}
    {managed : Table JsString ManagedWorktreeRow} (hfree : db.Free row)
    (h : db.managed.insert? key row = some managed) (k : JsString) (row' : ManagedWorktreeRow)
    (hk : managed.find? k = some row') :
    (db.workspaces.find? row'.workspaceId).isSome = true := by
  rw [(Table.find?_insert? h).2] at hk
  split at hk
  · obtain rfl := Option.some.inj hk
    exact hfree.reference
  · exact db.references k row' hk

/-- `INSERT INTO managed_worktrees`. -/
def insertManaged (key : JsString) (row : ManagedWorktreeRow) : Except JsError Database :=
  if hfree : db.Free row then
    match h : db.managed.insert? key row with
    | some managed =>
        .ok { db with
          managed
          workspaceId_unique := db.workspaceId_unique.insert hfree.workspaceId h
          branch_unique := db.branch_unique.insert hfree.branch h
          path_unique := db.path_unique.insert hfree.path h
          source_unique := db.source_unique.insert hfree.source h
          references := db.references_insert hfree h }
    | none => .error (constraintError "managed_worktrees.ownership_key")
  else .error (constraintError "managed_worktrees")

theorem references_update {key updatedAt : JsString} (k : JsString) (row : ManagedWorktreeRow)
    (hk : (db.managed.updateKey key (fun row => row.status = .active)
      (ManagedWorktreeRow.requireCleanup updatedAt)).1.find? k = some row) :
    (db.workspaces.find? row.workspaceId).isSome = true := by
  rw [Table.updateKey, Table.find?_updateWhere] at hk
  obtain ⟨row', hrow', rfl⟩ := Option.map_eq_some_iff.mp hk
  have href := db.references k row' hrow'
  split
  · exact href
  · exact href

/-- `UPDATE managed_worktrees … WHERE ownership_key = ? AND status = 'active'`,
and the number of changed rows. -/
def updateManaged (key updatedAt : JsString) : Database × Nat :=
  ({ db with
      managed := (db.managed.updateKey key (fun row => row.status = .active)
        (ManagedWorktreeRow.requireCleanup updatedAt)).1
      workspaceId_unique :=
        db.workspaceId_unique.updateKey (f := .requireCleanup updatedAt) (fun _ => rfl) _ _
      branch_unique :=
        db.branch_unique.updateKey (f := .requireCleanup updatedAt) (fun _ => rfl) _ _
      path_unique :=
        db.path_unique.updateKey (f := .requireCleanup updatedAt) (fun _ => rfl) _ _
      source_unique :=
        db.source_unique.updateKey (f := .requireCleanup updatedAt) (fun _ => rfl) _ _
      references := db.references_update },
    (db.managed.updateKey key (fun row => row.status = .active)
      (ManagedWorktreeRow.requireCleanup updatedAt)).2)

/-- `INSERT INTO worktree_cleanup_journal`. -/
def append (event : JournalEvent) : Database := { db with journal := db.journal ++ [event] }

/-- `#hasWorktreeJournalAction(ownershipKey, action)`. -/
def hasAction (key : JsString) (action : JournalAction) : Bool :=
  db.journal.any fun event => event.ownershipKey = key ∧ event.action = action

end Database

/-! ## Statements -/

/-- The columns of a checkout that is opened. -/
structure CheckoutValues where
  canonicalPath : JsString
  requestedPath : JsString
  filesystemIdentity : JsString
  repoRoot : Option JsString
  timestamp : JsString
  ownerInstance : Option JsString

def CheckoutValues.row (values : CheckoutValues) : WorkspaceRow where
  canonicalPath := values.canonicalPath
  requestedPath := values.requestedPath
  filesystemIdentity := values.filesystemIdentity
  mode := .checkout
  repoRoot := values.repoRoot
  worktreePath := none
  baseRef := none
  branch := none
  createdAt := values.timestamp
  lastUsedAt := values.timestamp
  ownerInstance := values.ownerInstance
  status := .available
  metadataVersion := 1

/-- `DO UPDATE SET …` of the row that is there. -/
def CheckoutValues.update (values : CheckoutValues) (row : WorkspaceRow) : WorkspaceRow :=
  { row with
    requestedPath := values.requestedPath
    repoRoot := values.repoRoot
    lastUsedAt := values.timestamp
    ownerInstance := values.ownerInstance
    status := .available
    metadataVersion := row.metadataVersion + 1 }

/-- The update of a managed worktree that is used again. -/
def WorkspaceRow.reuse (requestedPath timestamp : JsString) (ownerInstance : Option JsString)
    (row : WorkspaceRow) : WorkspaceRow :=
  { row with
    requestedPath
    lastUsedAt := timestamp
    ownerInstance
    status := .available
    metadataVersion := row.metadataVersion + 1 }

/-- The update of a status that has changed. -/
def WorkspaceRow.setStatus (status : WorkspaceStatus) (row : WorkspaceRow) : WorkspaceRow :=
  { row with status, metadataVersion := row.metadataVersion + 1 }

/-- What is registered of a worktree that the journal has an intent for. -/
structure ManagedWorktreeRegistration where
  ownershipKey : JsString
  absoluteRequestedPath : JsString
  repoRoot : JsString
  sourceFilesystemIdentity : JsString
  requestedBaseRef : JsString
  baseCommit : JsString
  branch : JsString
  worktreePath : JsString
  deriving DecidableEq

/-- The parameters of the transaction of `#registerManagedWorktree`. -/
structure RegistrationValues where
  registration : ManagedWorktreeRegistration
  canonicalPath : JsString
  filesystemIdentity : JsString
  candidateWorkspaceId : JsString
  timestamp : JsString
  ownerInstance : Option JsString
  journalAction : JournalAction

def RegistrationValues.workspaceRow (values : RegistrationValues) : WorkspaceRow where
  canonicalPath := values.canonicalPath
  requestedPath := values.registration.absoluteRequestedPath
  filesystemIdentity := values.filesystemIdentity
  mode := .worktree
  repoRoot := some values.registration.repoRoot
  worktreePath := some values.canonicalPath
  baseRef := some values.registration.baseCommit
  branch := some values.registration.branch
  createdAt := values.timestamp
  lastUsedAt := values.timestamp
  ownerInstance := values.ownerInstance
  status := .available
  metadataVersion := 1

def RegistrationValues.managedRow (values : RegistrationValues) : ManagedWorktreeRow where
  workspaceId := values.candidateWorkspaceId
  sourceRepoRoot := values.registration.repoRoot
  sourceFilesystemIdentity := values.registration.sourceFilesystemIdentity
  requestedBaseRef := values.registration.requestedBaseRef
  baseCommit := values.registration.baseCommit
  branch := values.registration.branch
  worktreePath := values.canonicalPath
  status := .active
  createdAt := values.timestamp
  updatedAt := values.timestamp

def RegistrationValues.event (values : RegistrationValues) : JournalEvent where
  ownershipKey := values.registration.ownershipKey
  workspaceId := some values.candidateWorkspaceId
  action := values.journalAction
  details := [("canonicalPath", values.canonicalPath)]

/-- The event of a managed worktree whose path is gone. -/
def cleanupEvent (ownershipKey workspaceId : JsString) : JournalEvent where
  ownershipKey
  workspaceId := some workspaceId
  action := .cleanupIntent
  details := [("reason", js "managed-worktree-path-unavailable")]

/-- The statements and transactions of the registry. -/
inductive Statement where
  /-- `SELECT * FROM managed_worktrees WHERE ownership_key = ?`. -/
  | selectManaged (ownershipKey : JsString)
  /-- `SELECT … FROM workspace_registry WHERE workspace_id = ?`. -/
  | selectWorkspace (workspaceId : JsString)
  /-- `SELECT event_id … WHERE ownership_key = ? AND action = ?`: is there one? -/
  | selectEvent (ownershipKey : JsString) (action : JournalAction)
  /-- `INSERT … ON CONFLICT(canonical_path, filesystem_identity, mode) DO UPDATE
  … RETURNING *`. -/
  | upsertCheckout (candidateId : JsString) (values : CheckoutValues)
  | reuse (workspaceId requestedPath timestamp : JsString) (ownerInstance : Option JsString)
  /-- The transaction that gives up a managed worktree. -/
  | requireCleanup (ownershipKey workspaceId timestamp : JsString)
  | append (event : JournalEvent)
  /-- The transaction of `#registerManagedWorktree`. -/
  | register (values : RegistrationValues)
  | setStatus (workspaceId : JsString) (status : WorkspaceStatus)

/-- What a statement gives back. -/
def Statement.Result : Statement → Type
  | .selectManaged _ => Option ManagedWorktreeRow
  | .selectWorkspace _ => Option WorkspaceRow
  | .selectEvent _ _ => Bool
  | .upsertCheckout _ _ => JsString × WorkspaceRow
  | .register _ => JsString
  | .setStatus _ _ => Nat
  | _ => Unit

namespace Database

variable (db : Database)

/-- The upsert of a checkout. -/
def upsertCheckout (candidateId : JsString) (values : CheckoutValues) :
    Except JsError ((JsString × WorkspaceRow) × Database) :=
  if (db.workspaces.find? candidateId).isSome then
    .error (constraintError "workspace_registry.workspace_id")
  else
    match db.workspaces.findBy? WorkspaceRow.handle values.row.handle with
    | some (workspaceId, row) =>
        .ok ((workspaceId, values.update row),
          (db.updateWorkspace workspaceId values.update fun _ => rfl).1)
    | none => do
        let db ← db.insertWorkspace candidateId values.row
        return ((candidateId, values.row), db)

/-- The transaction that gives up a managed worktree. -/
def requireCleanup (ownershipKey workspaceId timestamp : JsString) : Except JsError Database :=
  let (updated, changes) := db.updateManaged ownershipKey timestamp
  if changes = 1 then do
    let workspaceId ← parseEntityId "workspace" workspaceId
    return updated.append (cleanupEvent ownershipKey workspaceId)
  else return updated

/-- The transaction of `#registerManagedWorktree`. -/
def register (values : RegistrationValues) : Except JsError (JsString × Database) :=
  match (db.managed.find? values.registration.ownershipKey).filter (·.status = .active) with
  | some existing => do
      let workspaceId ← parseEntityId "workspace" existing.workspaceId
      return (workspaceId, db)
  | none => do
      let db ← db.insertWorkspace values.candidateWorkspaceId values.workspaceRow
      let db ← db.insertManaged values.registration.ownershipKey values.managedRow
      return (values.candidateWorkspaceId, db.append values.event)

/-- A transaction that throws is rolled back. -/
def orRollback {α : Type} : Except JsError (α × Database) → Except JsError α × Database
  | .ok (a, db) => (.ok a, db)
  | .error e => (.error e, db)

end Database

/-- One statement. -/
def Statement.run : (s : Statement) → Database → Except JsError s.Result × Database
  | .selectManaged ownershipKey, db => (.ok (db.managed.find? ownershipKey), db)
  | .selectWorkspace workspaceId, db => (.ok (db.workspaces.find? workspaceId), db)
  | .selectEvent ownershipKey action, db => (.ok (db.hasAction ownershipKey action), db)
  | .upsertCheckout candidateId values, db => db.orRollback (db.upsertCheckout candidateId values)
  | .reuse workspaceId requestedPath timestamp ownerInstance, db =>
      (.ok ⟨⟩, (db.updateWorkspace workspaceId
        (WorkspaceRow.reuse requestedPath timestamp ownerInstance) fun _ => rfl).1)
  | .requireCleanup ownershipKey workspaceId timestamp, db =>
      db.orRollback ((db.requireCleanup ownershipKey workspaceId timestamp).map fun db => (⟨⟩, db))
  | .append event, db => (.ok ⟨⟩, db.append event)
  | .register values, db => db.orRollback (db.register values)
  | .setStatus workspaceId status, db =>
      let (updated, changes) :=
        db.updateWorkspace workspaceId (WorkspaceRow.setStatus status) fun _ => rfl
      (.ok changes, updated)

end Benchhand.Workspace
