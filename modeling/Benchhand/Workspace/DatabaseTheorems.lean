/-
Benchhand.Workspace.DatabaseTheorems — what a statement does to the tables.

`Statement.run_change` says once what a statement of the registry can change;
every other fact about the tables is read off it. `Consistent` is the invariant
of the two tables and the journal: it is kept by every statement that is
`Proper`, which all are but an append or a registration that nobody makes.
-/
import Benchhand.Workspace.Registry

namespace Benchhand.Workspace

open Text Js Contracts Store

/-! ## Rows -/

/-- A row of workspace_registry at a later time. -/
structure WorkspaceRow.Later (old new : WorkspaceRow) : Prop where
  handle : new.handle = old.handle
  createdAt : new.createdAt = old.createdAt
  worktreePath : new.worktreePath = old.worktreePath
  baseRef : new.baseRef = old.baseRef
  branch : new.branch = old.branch
  repoRoot : old.mode = .worktree → new.repoRoot = old.repoRoot
  version : new = old ∨ old.metadataVersion < new.metadataVersion

namespace WorkspaceRow

variable {old new row : WorkspaceRow}

theorem Later.refl (row : WorkspaceRow) : row.Later row := ⟨rfl, rfl, rfl, rfl, rfl, fun _ => rfl, .inl rfl⟩

theorem Later.canonicalPath (h : old.Later new) : new.canonicalPath = old.canonicalPath :=
  congrArg Prod.fst h.handle

theorem Later.filesystemIdentity (h : old.Later new) :
    new.filesystemIdentity = old.filesystemIdentity := congrArg (fun i => i.2.1) h.handle

theorem Later.mode (h : old.Later new) : new.mode = old.mode := congrArg (fun i => i.2.2) h.handle

theorem Later.trans (h : old.Later row) (h' : row.Later new) : old.Later new where
  handle := h'.handle.trans h.handle
  createdAt := h'.createdAt.trans h.createdAt
  worktreePath := h'.worktreePath.trans h.worktreePath
  baseRef := h'.baseRef.trans h.baseRef
  branch := h'.branch.trans h.branch
  repoRoot hmode := (h'.repoRoot (h.mode.trans hmode)).trans (h.repoRoot hmode)
  version := by
    obtain rfl | hlt := h'.version
    · exact h.version
    · obtain rfl | hlt' := h.version
      · exact .inr hlt
      · exact .inr (hlt'.trans hlt)

theorem later_reuse (requestedPath timestamp : JsString) (ownerInstance : Option JsString) :
    row.Later (row.reuse requestedPath timestamp ownerInstance) :=
  ⟨rfl, rfl, rfl, rfl, rfl, fun _ => rfl, .inr (Nat.lt_succ_self _)⟩

theorem later_setStatus (status : WorkspaceStatus) : row.Later (row.setStatus status) :=
  ⟨rfl, rfl, rfl, rfl, rfl, fun _ => rfl, .inr (Nat.lt_succ_self _)⟩

/-- The upsert writes repo_root, but only of a checkout. -/
theorem later_update {values : CheckoutValues} (h : row.mode = .checkout) :
    row.Later (values.update row) :=
  ⟨rfl, rfl, rfl, rfl, rfl, fun hmode => absurd (h.symm.trans hmode) nofun,
    .inr (Nat.lt_succ_self _)⟩

end WorkspaceRow

/-! ## What a statement can change -/

/-- The tables before and after a statement. -/
inductive Change (s : Statement) (db db' : Database) : Prop where
  | same (hworkspaces : ∀ k, db'.workspaces.find? k = db.workspaces.find? k)
      (hmanaged : ∀ k, db'.managed.find? k = db.managed.find? k) (hjournal : db'.journal = db.journal)
  | event (e : JournalEvent) (hs : s = .append e) (h : db' = db.append e)
  | row (id : JsString) (row new : WorkspaceRow) (hrow : db.workspaces.find? id = some row)
      (hlater : row.Later new)
      (hworkspaces : ∀ k, db'.workspaces.find? k =
        if k = id then some new else db.workspaces.find? k)
      (hmanaged : ∀ k, db'.managed.find? k = db.managed.find? k) (hjournal : db'.journal = db.journal)
  | checkout (id : JsString) (values : CheckoutValues) (hfree : db.workspaces.find? id = none)
      (hworkspaces : ∀ k, db'.workspaces.find? k =
        if k = id then some values.row else db.workspaces.find? k)
      (hmanaged : ∀ k, db'.managed.find? k = db.managed.find? k) (hjournal : db'.journal = db.journal)
  | giveUp (key id timestamp : JsString) (row : ManagedWorktreeRow)
      (hs : s = .requireCleanup key id timestamp)
      (hrow : db.managed.find? key = some row) (hactive : row.status = .active)
      (hworkspaces : ∀ k, db'.workspaces.find? k = db.workspaces.find? k)
      (hmanaged : ∀ k, db'.managed.find? k =
        if k = key then some (row.requireCleanup timestamp) else db.managed.find? k)
      (hjournal : db'.journal = db.journal ++ [cleanupEvent key id])
  | registration (values : RegistrationValues) (hs : s = .register values)
      (hid : db.workspaces.find? values.candidateWorkspaceId = none)
      (hfree : db.managed.find? values.registration.ownershipKey = none)
      (hworkspaces : ∀ k, db'.workspaces.find? k =
        if k = values.candidateWorkspaceId then some values.workspaceRow
        else db.workspaces.find? k)
      (hmanaged : ∀ k, db'.managed.find? k =
        if k = values.registration.ownershipKey then some values.managedRow
        else db.managed.find? k)
      (hjournal : db'.journal = db.journal ++ [values.event])

theorem Change.unchanged (s : Statement) (db : Database) : Change s db db :=
  .same (fun _ => rfl) (fun _ => rfl) rfl

namespace Database

variable {db db' : Database} {s : Statement}

theorem updateWorkspace_change {id : JsString} {f : WorkspaceRow → WorkspaceRow}
    (hf : ∀ row, (f row).handle = row.handle)
    (hlater : ∀ row, db.workspaces.find? id = some row → row.Later (f row)) :
    Change s db (db.updateWorkspace id f hf).1 := by
  obtain ⟨-, row, hrow, -, hfind⟩ | ⟨-, -, hfind⟩ :=
    Table.updateKey_cases db.workspaces id (fun _ => true) f
  · exact .row id row (f row) hrow (hlater row hrow) hfind (fun _ => rfl) rfl
  · exact .same hfind (fun _ => rfl) rfl

theorem insertWorkspace_eq_ok {id : JsString} {row : WorkspaceRow}
    (h : db.insertWorkspace id row = .ok db') :
    db.workspaces.find? id = none ∧
      (∀ k, db'.workspaces.find? k = if k = id then some row else db.workspaces.find? k) ∧
      db'.managed = db.managed ∧ db'.journal = db.journal := by
  unfold insertWorkspace at h
  split at h
  · split at h
    · rename_i workspaces hinsert
      obtain rfl := Except.ok.inj h
      obtain ⟨hfree, hfind⟩ := Table.find?_insert? hinsert
      exact ⟨hfree, hfind, rfl, rfl⟩
    · cases h
  · cases h

theorem insertManaged_eq_ok {key : JsString} {row : ManagedWorktreeRow}
    (h : db.insertManaged key row = .ok db') :
    db.managed.find? key = none ∧
      (∀ k, db'.managed.find? k = if k = key then some row else db.managed.find? k) ∧
      db'.workspaces = db.workspaces ∧ db'.journal = db.journal := by
  unfold insertManaged at h
  split at h
  · split at h
    · rename_i managed hinsert
      obtain rfl := Except.ok.inj h
      obtain ⟨hfree, hfind⟩ := Table.find?_insert? hinsert
      exact ⟨hfree, hfind, rfl, rfl⟩
    · cases h
  · cases h

theorem upsertCheckout_change {id : JsString} {values : CheckoutValues}
    {result : JsString × WorkspaceRow} (h : db.upsertCheckout id values = .ok (result, db')) :
    Change s db db' := by
  unfold upsertCheckout at h
  split at h
  · cases h
  · split at h
    · rename_i workspaceId row hfound
      obtain ⟨-, rfl⟩ := Prod.mk.inj (Except.ok.inj h)
      obtain ⟨hrow, hhandle⟩ := Table.findBy?_eq_some hfound
      refine updateWorkspace_change _ fun row' hrow' => ?_
      rw [hrow] at hrow'
      obtain rfl := Option.some.inj hrow'
      exact WorkspaceRow.later_update (congrArg (fun i => i.2.2) hhandle)
    · cases hinsert : db.insertWorkspace id values.row with
      | error e =>
          rw [hinsert] at h
          cases h
      | ok inserted =>
          rw [hinsert] at h
          obtain ⟨-, rfl⟩ := Prod.mk.inj (Except.ok.inj h)
          obtain ⟨hfree, hfind, hmanaged, hjournal⟩ := insertWorkspace_eq_ok hinsert
          exact .checkout id values hfree hfind (fun k => congrArg (·.find? k) hmanaged) hjournal

/-- The row an upsert gives back is in the table, and has the handle it was
asked for. -/
theorem upsertCheckout_row {id id' : JsString} {values : CheckoutValues} {row : WorkspaceRow}
    (h : db.upsertCheckout id values = .ok ((id', row), db')) :
    db'.workspaces.find? id' = some row ∧ row.handle = values.row.handle := by
  unfold upsertCheckout at h
  split at h
  · cases h
  · split at h
    · rename_i workspaceId found hfound
      obtain ⟨hresult, rfl⟩ := Prod.mk.inj (Except.ok.inj h)
      obtain ⟨rfl, rfl⟩ := Prod.mk.inj hresult
      obtain ⟨hrow, hhandle⟩ := Table.findBy?_eq_some hfound
      refine ⟨?_, hhandle⟩
      unfold updateWorkspace
      rw [Table.find?_updateKey, if_pos rfl, hrow]
      rfl
    · cases hinsert : db.insertWorkspace id values.row with
      | error e =>
          rw [hinsert] at h
          cases h
      | ok inserted =>
          rw [hinsert] at h
          obtain ⟨hresult, rfl⟩ := Prod.mk.inj (Except.ok.inj h)
          obtain ⟨rfl, rfl⟩ := Prod.mk.inj hresult
          obtain ⟨-, hfind, -, -⟩ := insertWorkspace_eq_ok hinsert
          exact ⟨by rw [hfind, if_pos rfl], rfl⟩

theorem parseEntityId_eq_ok {id id' : JsString} (h : parseEntityId "workspace" id = .ok id') :
    id' = id := by
  unfold parseEntityId at h
  split at h
  · cases h
  · exact (Except.ok.inj h).symm

theorem requireCleanup_change {key id timestamp : JsString}
    (h : db.requireCleanup key id timestamp = .ok db') :
    Change (.requireCleanup key id timestamp) db db' := by
  unfold requireCleanup at h
  change (if (db.updateManaged key timestamp).2 = 1 then _ else _) = _ at h
  obtain ⟨hchanges, row, hrow, hactive, hfind⟩ | ⟨hchanges, -, hfind⟩ :=
    Table.updateKey_cases db.managed key (fun row => row.status = .active)
      (ManagedWorktreeRow.requireCleanup timestamp)
  · rw [if_pos (show (db.updateManaged key timestamp).2 = 1 from hchanges)] at h
    cases hid : parseEntityId "workspace" id with
    | error e =>
        rw [hid] at h
        cases h
    | ok id' =>
        rw [hid, parseEntityId_eq_ok hid] at h
        obtain rfl := Except.ok.inj h
        exact .giveUp key id timestamp row rfl hrow (of_decide_eq_true hactive) (fun _ => rfl) hfind
          rfl
  · rw [if_neg (show (db.updateManaged key timestamp).2 ≠ 1 from hchanges)] at h
    obtain rfl := Except.ok.inj h
    exact .same (fun _ => rfl) hfind rfl

/-- What a registration ends with: the active row that is there, or a new
one. -/
theorem register_eq_ok {values : RegistrationValues} {id : JsString}
    (h : db.register values = .ok (id, db')) :
    (db' = db ∧ ∃ row, db.managed.find? values.registration.ownershipKey = some row ∧
      row.status = .active ∧ row.workspaceId = id) ∨
    (id = values.candidateWorkspaceId ∧ Change (.register values) db db' ∧
      db.managed.find? values.registration.ownershipKey = none ∧
      db'.managed.find? values.registration.ownershipKey = some values.managedRow ∧
      db'.workspaces.find? values.candidateWorkspaceId = some values.workspaceRow) := by
  unfold register at h
  split at h
  · rename_i existing hexisting
    obtain ⟨hrow, hactive⟩ := Option.filter_eq_some_iff.mp hexisting
    cases hid : parseEntityId "workspace" existing.workspaceId with
    | error e =>
        rw [hid] at h
        cases h
    | ok id' =>
        rw [hid, parseEntityId_eq_ok hid] at h
        obtain ⟨rfl, rfl⟩ := Prod.mk.inj (Except.ok.inj h)
        exact .inl ⟨rfl, existing, hrow, of_decide_eq_true hactive, rfl⟩
  · cases hworkspace : db.insertWorkspace values.candidateWorkspaceId values.workspaceRow with
    | error e =>
        rw [hworkspace] at h
        cases h
    | ok inserted =>
        rw [hworkspace] at h
        cases hrow : inserted.insertManaged values.registration.ownershipKey values.managedRow with
        | error e =>
            simp only [bind, Except.bind, hrow] at h
            cases h
        | ok registered =>
            simp only [bind, Except.bind, hrow] at h
            obtain ⟨rfl, rfl⟩ := Prod.mk.inj (Except.ok.inj h)
            obtain ⟨hid, hfind, hmanaged, hjournal⟩ := insertWorkspace_eq_ok hworkspace
            obtain ⟨hfree, hfind', hworkspaces', hjournal'⟩ := insertManaged_eq_ok hrow
            rw [hmanaged] at hfree
            refine .inr ⟨rfl, .registration values rfl hid hfree (fun k => ?_) (fun k => ?_) ?_,
              hfree, ?_, ?_⟩
            · change registered.workspaces.find? k = _
              rw [hworkspaces', hfind]
            · change registered.managed.find? k = _
              rw [hfind', hmanaged]
            · change registered.journal ++ _ = _
              rw [hjournal', hjournal]
            · change registered.managed.find? _ = _
              rw [hfind', if_pos rfl]
            · change registered.workspaces.find? _ = _
              rw [hworkspaces', hfind, if_pos rfl]

/-- A transaction changes what its function changes, or nothing. -/
theorem orRollback_change {α : Type} {result : Except JsError (α × Database)}
    (h : ∀ a db', result = .ok (a, db') → Change s db db') :
    Change s db (db.orRollback result).2 := by
  cases result with
  | error e => exact .unchanged s db
  | ok r => exact h r.1 r.2 rfl

theorem orRollback_ok {α : Type} {result : Except JsError (α × Database)} {a : α}
    (h : (db.orRollback result).1 = .ok a) : result = .ok (a, (db.orRollback result).2) := by
  cases result with
  | error e => cases h
  | ok r =>
      obtain rfl := Except.ok.inj h
      rfl

end Database

theorem Statement.run_upsertCheckout {id : JsString} {values : CheckoutValues} {db : Database}
    {result : JsString × WorkspaceRow}
    (h : ((Statement.upsertCheckout id values).run db).1 = .ok result) :
    ((Statement.upsertCheckout id values).run db).2.workspaces.find? result.1 = some result.2 ∧
      result.2.handle = values.row.handle :=
  Database.upsertCheckout_row (Database.orRollback_ok h)

theorem Statement.run_change (s : Statement) (db : Database) : Change s db (s.run db).2 := by
  cases s with
  | selectManaged key => exact .unchanged _ db
  | selectWorkspace id => exact .unchanged _ db
  | selectEvent key action => exact .unchanged _ db
  | upsertCheckout id values =>
      exact Database.orRollback_change fun _ _ h => Database.upsertCheckout_change h
  | reuse id requestedPath timestamp ownerInstance =>
      exact Database.updateWorkspace_change
        (f := .reuse requestedPath timestamp ownerInstance) (fun _ => rfl) fun _ _ =>
        WorkspaceRow.later_reuse _ _ _
  | requireCleanup key id timestamp =>
      refine Database.orRollback_change fun a db' h => ?_
      cases hresult : db.requireCleanup key id timestamp with
      | error e =>
          rw [hresult] at h
          cases h
      | ok db'' =>
          rw [hresult] at h
          obtain ⟨-, rfl⟩ := Prod.mk.inj (Except.ok.inj h)
          exact Database.requireCleanup_change hresult
  | append e => exact .event e rfl rfl
  | register values =>
      refine Database.orRollback_change fun id db' h => ?_
      obtain ⟨rfl, -⟩ | ⟨-, hchange, -⟩ := Database.register_eq_ok h
      · exact .unchanged _ _
      · exact hchange
  | setStatus id status =>
      exact Database.updateWorkspace_change (f := .setStatus status) (fun _ => rfl) fun _ _ =>
        WorkspaceRow.later_setStatus _

/-! ### Reading a change -/

/-- What stands at a key after one key was written. -/
theorem written_cases {K V : Type} [DecidableEq K] {f g : K → Option V} {key : K} {v : V}
    (h : ∀ k, g k = if k = key then some v else f k) {k : K} {w : V} (hk : g k = some w) :
    (k = key ∧ w = v) ∨ (k ≠ key ∧ f k = some w) := by
  rw [h] at hk
  split at hk
  · rename_i heq
    exact .inl ⟨heq, (Option.some.inj hk).symm⟩
  · rename_i hne
    exact .inr ⟨hne, hk⟩

namespace Change

variable {s : Statement} {db db' : Database}

/-- A row of workspace_registry is never deleted, and only its later form takes
its place. -/
theorem workspace (h : Change s db db') {id : JsString} {row : WorkspaceRow}
    (hrow : db.workspaces.find? id = some row) :
    ∃ row', db'.workspaces.find? id = some row' ∧ row.Later row' := by
  have hsame : ∀ (k : JsString) new, db.workspaces.find? k = none →
      (if id = k then some new else db.workspaces.find? id) = some row := by
    intro k new hk
    rw [if_neg ?_, hrow]
    intro heq
    rw [← heq, hrow] at hk
    cases hk
  cases h with
  | same hworkspaces => exact ⟨row, (hworkspaces id).trans hrow, .refl row⟩
  | event e hs h => exact ⟨row, h ▸ hrow, .refl row⟩
  | row k old new hold hlater hworkspaces =>
      by_cases hk : id = k
      · subst hk
        rw [hold] at hrow
        obtain rfl := Option.some.inj hrow
        exact ⟨new, by rw [hworkspaces, if_pos rfl], hlater⟩
      · exact ⟨row, by rw [hworkspaces, if_neg hk, hrow], .refl row⟩
  | checkout k values hfree hworkspaces =>
      exact ⟨row, by rw [hworkspaces, hsame _ _ hfree], .refl row⟩
  | giveUp key k t m hs hm hactive hworkspaces =>
      exact ⟨row, (hworkspaces id).trans hrow, .refl row⟩
  | registration values hs hid hfree hworkspaces =>
      exact ⟨row, by rw [hworkspaces, hsame _ _ hid], .refl row⟩

/-- A row of managed_worktrees is never deleted; it is given up together with
the event that says so. -/
theorem managed (h : Change s db db') {key : JsString} {m : ManagedWorktreeRow}
    (hm : db.managed.find? key = some m) :
    db'.managed.find? key = some m ∨
    ∃ id timestamp, m.status = .active ∧
      db'.managed.find? key = some (m.requireCleanup timestamp) ∧
      db'.journal = db.journal ++ [cleanupEvent key id] := by
  cases h with
  | same hworkspaces hmanaged => exact .inl ((hmanaged key).trans hm)
  | event e hs h => exact .inl (h ▸ hm)
  | row k old new hold hlater hworkspaces hmanaged => exact .inl ((hmanaged key).trans hm)
  | checkout k values hfree hworkspaces hmanaged => exact .inl ((hmanaged key).trans hm)
  | giveUp k id t old hs hold hactive hworkspaces hmanaged hjournal =>
      by_cases hk : key = k
      · subst hk
        rw [hold] at hm
        obtain rfl := Option.some.inj hm
        exact .inr ⟨id, t, hactive, by rw [hmanaged, if_pos rfl], hjournal⟩
      · exact .inl (by rw [hmanaged, if_neg hk, hm])
  | registration values hs hid hfree hworkspaces hmanaged =>
      refine .inl ?_
      rw [hmanaged, if_neg ?_, hm]
      intro heq
      rw [← heq, hm] at hfree
      cases hfree

/-- A worktree row that a statement adds is that of a registration. -/
theorem worktree (h : Change s db db')
    {id : JsString} {row : WorkspaceRow} (hnew : db.workspaces.find? id = none)
    (hrow : db'.workspaces.find? id = some row) (hmode : row.mode = .worktree) :
    ∃ values, s = .register values ∧ row = values.workspaceRow := by
  have hnot : db.workspaces.find? id ≠ some row := by
    rw [hnew]
    exact fun h => by cases h
  cases h with
  | same hworkspaces => exact absurd ((hworkspaces id).symm.trans hrow) hnot
  | event e hs h =>
      subst h
      exact absurd hrow hnot
  | row k old new hold hlater hworkspaces =>
      obtain ⟨rfl, -⟩ | ⟨-, h⟩ := written_cases hworkspaces hrow
      · rw [hnew] at hold
        cases hold
      · exact absurd h hnot
  | checkout k values hfree hworkspaces =>
      obtain ⟨-, rfl⟩ | ⟨-, h⟩ := written_cases hworkspaces hrow
      · cases hmode
      · exact absurd h hnot
  | giveUp key k t m hs hm hactive hworkspaces =>
      exact absurd ((hworkspaces id).symm.trans hrow) hnot
  | registration values hs hid hfree hworkspaces =>
      obtain ⟨-, rfl⟩ | ⟨-, h⟩ := written_cases hworkspaces hrow
      · exact ⟨values, hs, rfl⟩
      · exact absurd h hnot

/-- The journal only grows. -/
theorem journal (h : Change s db db') : db.journal <+: db'.journal := by
  cases h with
  | same hworkspaces hmanaged hjournal => exact hjournal ▸ List.prefix_rfl
  | event e hs h => exact h ▸ List.prefix_append _ _
  | row k old new hold hlater hworkspaces hmanaged hjournal => exact hjournal ▸ List.prefix_rfl
  | checkout k values hfree hworkspaces hmanaged hjournal => exact hjournal ▸ List.prefix_rfl
  | giveUp k id t old hs hold hactive hworkspaces hmanaged hjournal =>
      exact hjournal ▸ List.prefix_append _ _
  | registration values hs hid hfree hworkspaces hmanaged hjournal =>
      exact hjournal ▸ List.prefix_append _ _

end Change

/-! ## The invariant -/

/-- `created` or `reconciled`, of a workspace. -/
def JournalEvent.Registers (event : JournalEvent) (workspaceId : JsString) : Prop :=
  event.workspaceId = some workspaceId ∧ (event.action = .created ∨ event.action = .reconciled)

/-- An intent for the key, and after it the one event that registers the
workspace. -/
def Registered (journal : List JournalEvent) (key workspaceId : JsString) : Prop :=
  ∃ before event after, journal = before ++ event :: after ∧
    event.ownershipKey = key ∧ event.Registers workspaceId ∧
    (∃ e ∈ before, e.ownershipKey = key ∧ e.action = .createIntent) ∧
    ∀ e ∈ before ++ after, ¬ e.Registers workspaceId

/-- A managed worktree and its workspace. -/
structure ManagedWorktreeRow.Matches (m : ManagedWorktreeRow) (row : WorkspaceRow) : Prop where
  mode : row.mode = .worktree
  canonicalPath : row.canonicalPath = m.worktreePath
  worktreePath : row.worktreePath = some m.worktreePath
  baseRef : row.baseRef = some m.baseCommit
  branch : row.branch = some m.branch
  repoRoot : row.repoRoot = some m.sourceRepoRoot

/-- What always holds between the two tables and the journal. -/
structure Consistent (lib : Libraries) (db : Database) : Prop where
  workspace : ∀ key m, db.managed.find? key = some m →
    ∃ row, db.workspaces.find? m.workspaceId = some row ∧ m.Matches row
  managed : ∀ id row, db.workspaces.find? id = some row → row.mode = .worktree →
    ∃ key m, db.managed.find? key = some m ∧ m.workspaceId = id
  named : ∀ key m, db.managed.find? key = some m →
    key = worktreeOwnershipKey lib m.sourceFilesystemIdentity m.baseCommit ∧
      m.branch = worktreeBranch key
  registered : ∀ key m, db.managed.find? key = some m → Registered db.journal key m.workspaceId
  /-- An event that registers a workspace is of one that is there. -/
  known : ∀ e ∈ db.journal, ∀ id, e.Registers id → (db.workspaces.find? id).isSome = true
  cleanup : ∀ key m, db.managed.find? key = some m → m.status = .cleanupRequired →
    ∃ e ∈ db.journal, e.ownershipKey = key ∧ e.action = .cleanupIntent

/-- The registration of a source is named after it. -/
def ManagedWorktreeRegistration.Named (lib : Libraries) (r : ManagedWorktreeRegistration) : Prop :=
  r.ownershipKey = worktreeOwnershipKey lib r.sourceFilesystemIdentity r.baseCommit ∧
    r.branch = worktreeBranch r.ownershipKey

/-- The statements as the registry makes them. -/
def Statement.Proper (lib : Libraries) (db : Database) : Statement → Prop
  | .append event => event.workspaceId = none
  | .register values =>
      values.registration.Named lib ∧
        (values.journalAction = .created ∨ values.journalAction = .reconciled) ∧
        db.hasAction values.registration.ownershipKey .createIntent = true
  | _ => True

theorem Registered.append {journal : List JournalEvent} {key workspaceId : JsString}
    {event : JournalEvent} (h : Registered journal key workspaceId)
    (hevent : ¬ event.Registers workspaceId) : Registered (journal ++ [event]) key workspaceId := by
  obtain ⟨before, e, after, rfl, hkey, hregisters, hintent, honly⟩ := h
  refine ⟨before, e, after ++ [event], by simp, hkey, hregisters, hintent, fun e' he' => ?_⟩
  rw [← List.append_assoc] at he'
  obtain he' | he' := List.mem_append.mp he'
  · exact honly e' he'
  · exact List.mem_singleton.mp he' ▸ hevent

theorem ManagedWorktreeRow.Matches.later {m : ManagedWorktreeRow} {row new : WorkspaceRow}
    (h : m.Matches row) (hlater : row.Later new) : m.Matches new where
  mode := hlater.mode.trans h.mode
  canonicalPath := hlater.canonicalPath.trans h.canonicalPath
  worktreePath := hlater.worktreePath.trans h.worktreePath
  baseRef := hlater.baseRef.trans h.baseRef
  branch := hlater.branch.trans h.branch
  repoRoot := (hlater.repoRoot h.mode).trans h.repoRoot

theorem hasAction_iff {db : Database} {key : JsString} {action : JournalAction} :
    db.hasAction key action = true ↔
      ∃ e ∈ db.journal, e.ownershipKey = key ∧ e.action = action := by
  simp [Database.hasAction]

namespace Consistent

variable {lib : Libraries} {db db' : Database} {s : Statement}

/-- Tables without managed worktrees. -/
theorem migrated (lib : Libraries) {checkouts : Table JsString WorkspaceRow}
    (hunique : checkouts.UniqueOn WorkspaceRow.handle)
    (hcheckout : ∀ id row, checkouts.find? id = some row → row.mode = .checkout) :
    Consistent lib (Database.migrated checkouts hunique) where
  workspace := nofun
  managed id row hrow hmode := absurd (hmode.symm.trans (hcheckout id row hrow)) nofun
  named := nofun
  registered := nofun
  known := nofun
  cleanup := nofun

/-- Rows of workspace_registry change, and new ones are checkouts. -/
theorem of_workspaces (h : Consistent lib db) (hchange : Change s db db')
    (hnew : ∀ id row, db'.workspaces.find? id = some row → row.mode = .worktree →
      ∃ old, db.workspaces.find? id = some old ∧ old.mode = .worktree)
    (hmanaged : ∀ k, db'.managed.find? k = db.managed.find? k)
    (hjournal : db'.journal = db.journal) : Consistent lib db' where
  workspace key m hm := by
    rw [hmanaged] at hm
    obtain ⟨row, hrow, hmatches⟩ := h.workspace key m hm
    obtain ⟨row', hrow', hlater⟩ := hchange.workspace hrow
    exact ⟨row', hrow', hmatches.later hlater⟩
  managed id row hrow hmode := by
    obtain ⟨old, hold, hmode'⟩ := hnew id row hrow hmode
    obtain ⟨key, m, hm, hid⟩ := h.managed id old hold hmode'
    exact ⟨key, m, (hmanaged key).trans hm, hid⟩
  named key m hm := h.named key m ((hmanaged key).symm.trans hm)
  registered key m hm := hjournal ▸ h.registered key m ((hmanaged key).symm.trans hm)
  known e he id hregisters := by
    rw [hjournal] at he
    obtain ⟨row, hrow⟩ := Option.isSome_iff_exists.mp (h.known e he id hregisters)
    obtain ⟨row', hrow', -⟩ := hchange.workspace hrow
    rw [hrow']
    rfl
  cleanup key m hm hstatus := hjournal ▸ h.cleanup key m ((hmanaged key).symm.trans hm) hstatus

/-- An event that registers nothing. -/
theorem append (h : Consistent lib db) {e : JournalEvent} (he : ∀ id, ¬ e.Registers id) :
    Consistent lib (db.append e) where
  workspace := h.workspace
  managed := h.managed
  named := h.named
  registered key m hm := (h.registered key m hm).append (he _)
  known e' he' id hregisters := by
    obtain he' | he' := List.mem_append.mp he'
    · exact h.known e' he' id hregisters
    · exact absurd hregisters (List.mem_singleton.mp he' ▸ he id)
  cleanup key m hm hstatus :=
    let ⟨e', he', hcleanup⟩ := h.cleanup key m hm hstatus
    ⟨e', List.mem_append_left _ he', hcleanup⟩

theorem giveUp (h : Consistent lib db) {key id timestamp : JsString} {row : ManagedWorktreeRow}
    (hrow : db.managed.find? key = some row)
    (hworkspaces : ∀ k, db'.workspaces.find? k = db.workspaces.find? k)
    (hmanaged : ∀ k, db'.managed.find? k =
      if k = key then some (row.requireCleanup timestamp) else db.managed.find? k)
    (hjournal : db'.journal = db.journal ++ [cleanupEvent key id]) : Consistent lib db' := by
  have hevent : ∀ id', ¬ (cleanupEvent key id).Registers id' := by
    intro id' hregisters
    obtain ⟨-, heq | heq⟩ := hregisters
    · cases heq
    · cases heq
  -- a row after the step is one before it, but for its status and updated_at
  have hold : ∀ k m, db'.managed.find? k = some m →
      ∃ old, db.managed.find? k = some old ∧
        (m = old ∨ k = key ∧ m = old.requireCleanup timestamp) := by
    intro k m hm
    obtain ⟨rfl, rfl⟩ | ⟨-, hm⟩ := written_cases hmanaged hm
    · exact ⟨row, hrow, .inr ⟨rfl, rfl⟩⟩
    · exact ⟨m, hm, .inl rfl⟩
  constructor
  case workspace =>
    intro k m hm
    obtain ⟨old, hk, rfl | ⟨-, rfl⟩⟩ := hold k m hm
    · obtain ⟨w, hw, hmatches⟩ := h.workspace k m hk
      exact ⟨w, (hworkspaces _).trans hw, hmatches⟩
    · obtain ⟨w, hw, hmatches⟩ := h.workspace k old hk
      exact ⟨w, (hworkspaces _).trans hw, ⟨hmatches.mode, hmatches.canonicalPath,
        hmatches.worktreePath, hmatches.baseRef, hmatches.branch, hmatches.repoRoot⟩⟩
  case managed =>
    intro id' w hw hmode
    rw [hworkspaces] at hw
    obtain ⟨k, m, hm, hid⟩ := h.managed id' w hw hmode
    by_cases hk : k = key
    · subst hk
      rw [hrow] at hm
      obtain rfl := Option.some.inj hm
      exact ⟨k, row.requireCleanup timestamp, by rw [hmanaged, if_pos rfl], hid⟩
    · exact ⟨k, m, by rw [hmanaged, if_neg hk, hm], hid⟩
  case named =>
    intro k m hm
    obtain ⟨old, hk, rfl | ⟨-, rfl⟩⟩ := hold k m hm
    · exact h.named k m hk
    · exact h.named k old hk
  case registered =>
    intro k m hm
    rw [hjournal]
    obtain ⟨old, hk, rfl | ⟨-, rfl⟩⟩ := hold k m hm
    · exact (h.registered k m hk).append (hevent _)
    · exact (h.registered k old hk).append (hevent _)
  case known =>
    intro e he id' hregisters
    rw [hjournal] at he
    rw [hworkspaces]
    obtain he | he := List.mem_append.mp he
    · exact h.known e he id' hregisters
    · exact absurd hregisters (List.mem_singleton.mp he ▸ hevent id')
  case cleanup =>
    intro k m hm hstatus
    rw [hjournal]
    obtain ⟨old, hk, rfl | ⟨rfl, -⟩⟩ := hold k m hm
    · obtain ⟨e, he, hcleanup⟩ := h.cleanup k m hk hstatus
      exact ⟨e, List.mem_append_left _ he, hcleanup⟩
    · exact ⟨_, List.mem_append_right _ (List.mem_singleton_self _), rfl, rfl⟩

/-- A new managed worktree, with its workspace and its event. -/
theorem registration (h : Consistent lib db) {values : RegistrationValues}
    (hnamed : values.registration.Named lib)
    (haction : values.journalAction = .created ∨ values.journalAction = .reconciled)
    (hintent : db.hasAction values.registration.ownershipKey .createIntent = true)
    (hid : db.workspaces.find? values.candidateWorkspaceId = none)
    (hfree : db.managed.find? values.registration.ownershipKey = none)
    (hworkspaces : ∀ k, db'.workspaces.find? k =
      if k = values.candidateWorkspaceId then some values.workspaceRow
      else db.workspaces.find? k)
    (hmanaged : ∀ k, db'.managed.find? k =
      if k = values.registration.ownershipKey then some values.managedRow
      else db.managed.find? k)
    (hjournal : db'.journal = db.journal ++ [values.event]) : Consistent lib db' := by
  have hnew : ∀ e ∈ db.journal, ¬ e.Registers values.candidateWorkspaceId := by
    intro e he hregisters
    have hknown := h.known e he _ hregisters
    rw [hid] at hknown
    cases hknown
  have hne : ∀ k m, db.managed.find? k = some m → m.workspaceId ≠ values.candidateWorkspaceId := by
    intro k m hm heq
    obtain ⟨w, hw, -⟩ := h.workspace k m hm
    rw [heq, hid] at hw
    cases hw
  constructor
  case workspace =>
    intro k m hm
    obtain ⟨rfl, rfl⟩ | ⟨-, hm⟩ := written_cases hmanaged hm
    · exact ⟨values.workspaceRow, by rw [hworkspaces]; exact if_pos rfl,
        ⟨rfl, rfl, rfl, rfl, rfl, rfl⟩⟩
    · obtain ⟨w, hw, hmatches⟩ := h.workspace k m hm
      exact ⟨w, by rw [hworkspaces, if_neg (hne k m hm), hw], hmatches⟩
  case managed =>
    intro id w hw hmode
    obtain ⟨rfl, rfl⟩ | ⟨-, hw⟩ := written_cases hworkspaces hw
    · exact ⟨_, values.managedRow, by rw [hmanaged, if_pos rfl], rfl⟩
    · obtain ⟨k, m, hm, hmid⟩ := h.managed id w hw hmode
      refine ⟨k, m, ?_, hmid⟩
      rw [hmanaged, if_neg ?_, hm]
      intro hk
      rw [hk, hfree] at hm
      cases hm
  case named =>
    intro k m hm
    obtain ⟨rfl, rfl⟩ | ⟨-, hm⟩ := written_cases hmanaged hm
    · exact hnamed
    · exact h.named k m hm
  case registered =>
    intro k m hm
    rw [hjournal]
    obtain ⟨rfl, rfl⟩ | ⟨-, hm⟩ := written_cases hmanaged hm
    · refine ⟨db.journal, values.event, [], rfl, rfl, ⟨rfl, haction⟩, hasAction_iff.mp hintent, ?_⟩
      rw [List.append_nil]
      exact hnew
    · refine (h.registered k m hm).append fun hregisters => ?_
      exact hne k m hm (Option.some.inj hregisters.1).symm
  case known =>
    intro e he id hregisters
    rw [hjournal] at he
    obtain he | he := List.mem_append.mp he
    · rw [hworkspaces]
      split
      · rfl
      · exact h.known e he id hregisters
    · rw [List.mem_singleton.mp he] at hregisters
      rw [← Option.some.inj hregisters.1, hworkspaces, if_pos rfl]
      rfl
  case cleanup =>
    intro k m hm hstatus
    rw [hjournal]
    obtain ⟨rfl, rfl⟩ | ⟨-, hm⟩ := written_cases hmanaged hm
    · cases hstatus
    · obtain ⟨e, he, hcleanup⟩ := h.cleanup k m hm hstatus
      exact ⟨e, List.mem_append_left _ he, hcleanup⟩

/-- Every statement that the registry makes keeps the invariant. -/
theorem run (h : Consistent lib db) (hs : s.Proper lib db) : Consistent lib (s.run db).2 := by
  have hchange := s.run_change db
  cases hchange with
  | same hworkspaces hmanaged hjournal =>
      refine h.of_workspaces (s.run_change db) (fun id row hrow hmode => ?_) hmanaged hjournal
      exact ⟨row, (hworkspaces id).symm.trans hrow, hmode⟩
  | event e heq hdb =>
      rw [hdb]
      rw [heq] at hs
      exact h.append fun id hregisters => absurd (hs.symm.trans hregisters.1) nofun
  | row k old new hold hlater hworkspaces hmanaged hjournal =>
      refine h.of_workspaces (s.run_change db) (fun id row hrow hmode => ?_) hmanaged hjournal
      obtain ⟨rfl, rfl⟩ | ⟨-, hrow⟩ := written_cases hworkspaces hrow
      · exact ⟨old, hold, hlater.mode.symm.trans hmode⟩
      · exact ⟨row, hrow, hmode⟩
  | checkout k values hfree hworkspaces hmanaged hjournal =>
      refine h.of_workspaces (s.run_change db) (fun id row hrow hmode => ?_) hmanaged hjournal
      obtain ⟨rfl, rfl⟩ | ⟨-, hrow⟩ := written_cases hworkspaces hrow
      · cases hmode
      · exact ⟨row, hrow, hmode⟩
  | giveUp key id t m heq hm hactive hworkspaces hmanaged hjournal =>
      exact h.giveUp hm hworkspaces hmanaged hjournal
  | registration values heq hid hfree hworkspaces hmanaged hjournal =>
      rw [heq] at hs
      exact h.registration hs.1 hs.2.1 hs.2.2 hid hfree hworkspaces hmanaged hjournal

end Consistent

end Benchhand.Workspace
