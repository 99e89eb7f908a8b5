/-
Benchhand.Workspace.WorktreeTheorems — the opens of one managed worktree.

A `Target` is what the worktree is of. Its opens run at once, on any number of
registries, or one after the other; `Orderly` is what holds between their
calls, and `Follows` what a call leaves of what the others have seen. Nothing
fails but the branch that git refuses (`Ordinary`), and a call that has to find
the worktree in git's list finds it there (`Decisive`). `safe_opened` is an
open from its start to its end: it is resolved with the workspace that the key
is registered for, or it asks for a cleanup.
-/
import Benchhand.Workspace.HandleTheorems

namespace Benchhand.Workspace

open Text Js Posix Contracts Store Process

variable {α β : Type} {lib : Libraries} {registry : WorkspaceRegistry}

/-! ## One worktree -/

/-- The source that a managed worktree is made of. -/
structure Target where
  identity : JsString
  commit : JsString
  /-- The repository of each root, and the one that is meant. -/
  repositoryOf : JsString → JsString
  repository : JsString

variable (lib) in
def Target.key (target : Target) : JsString := worktreeOwnershipKey lib target.identity target.commit

variable (lib) in
/-- The registration is one of the target. -/
structure ManagedWorktreeRegistration.For (target : Target) (r : ManagedWorktreeRegistration) :
    Prop where
  key : r.ownershipKey = target.key lib
  identity : r.sourceFilesystemIdentity = target.identity
  commit : r.baseCommit = target.commit
  branch : r.branch = worktreeBranch (target.key lib)
  path : ∃ root, r.worktreePath = join root (target.key lib)
  repository : target.repositoryOf r.repoRoot = target.repository
  commitId : isCommitId r.baseCommit = true
  lower : toLowerAscii r.baseCommit = r.baseCommit
  repoRoot_ne : r.repoRoot ≠ []
  requestedPath_ne : r.absoluteRequestedPath ≠ []

theorem ManagedWorktreeRegistration.For.named {target : Target} {r : ManagedWorktreeRegistration}
    (h : r.For lib target) : r.Named lib := by
  refine ⟨?_, h.branch.trans (by rw [h.key])⟩
  rw [h.key, h.identity, h.commit]
  rfl

/-- A workspace whose path is the directory that was recorded. -/
def Files.Available (files : Files) (row : WorkspaceRow) : Prop :=
  ∃ stats, files.stat row.canonicalPath = .ok stats ∧ stats.isDirectory = true ∧
    filesystemIdentityFromStats stats = row.filesystemIdentity

variable (lib) in
/-- The workspace that the key is registered for can be read; if the opens are
strict, it has not been given up and is where it was recorded. -/
def Target.Held (target : Target) (strict : Prop) (files : Files) (db : Database) : Prop :=
  ∀ m, db.managed.find? (target.key lib) = some m →
    ∃ row, db.workspaces.find? m.workspaceId = some row ∧ row.Readable lib m.workspaceId ∧
      (strict → m.status = .active ∧ files.Available row)

/-- Nothing of the key has failed or been cleaned up after. -/
def Database.Undamaged (db : Database) (key : JsString) : Prop :=
  ∀ event ∈ db.journal, event.ownershipKey = key →
    event.action ≠ .createFailed ∧ event.action ≠ .cleanupIntent

variable (lib) in
/-- What holds between the calls of the opens of a target. -/
structure Orderly (target : Target) (strict : Prop) (w : World) : Prop where
  consistent : Consistent lib w.db
  repository : w.site.repository = target.repositoryOf
  branch : ∀ commit,
    w.site.branches target.repository (worktreeBranch (target.key lib)) = some commit →
    commit = target.commit ∧ w.Intended (target.key lib)
  path : ∀ root node, w.site.files.lstat (join root (target.key lib)) = .ok node →
    w.Intended (target.key lib)
  held : target.Held lib strict w.site.files w.db
  source : ∀ m, w.db.managed.find? (target.key lib) = some m →
    m.source = (target.identity, target.commit)

/-- What was answered for a path is still answered. -/
structure Files.Kept (old new : Files) : Prop where
  realpath : ∀ path canonical, old.realpath path = .ok canonical →
    new.realpath path = .ok canonical
  stat : ∀ path stats, old.stat path = .ok stats → new.stat path = .ok stats

theorem Files.Kept.refl (files : Files) : files.Kept files := ⟨fun _ _ h => h, fun _ _ h => h⟩

theorem Files.Kept.trans {files files' files'' : Files} (h : files.Kept files')
    (h' : files'.Kept files'') : files.Kept files'' where
  realpath path canonical hpath := h'.realpath path canonical (h.realpath path canonical hpath)
  stat path stats hstats := h'.stat path stats (h.stat path stats hstats)

theorem Files.Available.kept {files files' : Files} {row : WorkspaceRow}
    (h : files.Available row) (hkept : files.Kept files') : files'.Available row :=
  let ⟨stats, hstats, h⟩ := h
  ⟨stats, hkept.stat _ _ hstats, h⟩

variable (lib) in
/-- What the calls of an open leave of what another has seen. -/
structure Follows (target : Target) (strict : Prop) (v w : World) : Prop where
  journal : v.db.journal <+: w.db.journal
  rows : RowsLater v.db w.db
  managed : ∀ m, v.db.managed.find? (target.key lib) = some m →
    ∃ m', w.db.managed.find? (target.key lib) = some m' ∧ m'.workspaceId = m.workspaceId
  files : v.site.files.Kept w.site.files
  undamaged : strict → v.db.Undamaged (target.key lib) → w.db.Undamaged (target.key lib)

theorem Follows.refl (target : Target) (strict : Prop) (w : World) :
    Follows lib target strict w w :=
  ⟨List.prefix_rfl, .refl _, fun m hm => ⟨m, hm, rfl⟩, .refl _, fun _ h => h⟩

theorem Follows.trans {target : Target} {strict : Prop} {u v w : World} (h : Follows lib target strict u v)
    (h' : Follows lib target strict v w) : Follows lib target strict u w where
  journal := h.journal.trans h'.journal
  rows := h.rows.trans h'.rows
  managed m hm :=
    let ⟨m', hm', hid⟩ := h.managed m hm
    let ⟨m'', hm'', hid'⟩ := h'.managed m' hm'
    ⟨m'', hm'', hid'.trans hid⟩
  files := h.files.trans h'.files
  undamaged hstrict hu := h'.undamaged hstrict (h.undamaged hstrict hu)

theorem Follows.intended {target : Target} {strict : Prop} {v w : World} (h : Follows lib target strict v w)
    (hv : v.Intended (target.key lib)) : w.Intended (target.key lib) :=
  hasAction_later h.journal hv

/-! ## Steps -/

/-- The call has not failed: git may refuse a branch that is there, and there may
be nothing at a path or under a branch's name. -/
def Answered : (c : Call) → Answer c → Prop
  | .sql _, r => ∃ a, r = .ok a
  | .realpath _, r => ∀ path, r = .ok path → path ≠ []
  | .stat _, r => ∃ stats : BigIntStats, r = .ok stats ∧ stats.isDirectory = true
  | .lstat _, r => ∀ e : Errno, r = .error e → e.code = js "ENOENT"
  | .mkdir _, r => r = .ok ⟨⟩
  | .revParse _ _, _ => True
  | .branchCommit _ _, r => ∀ failure : ExecFailure, r = .error failure → failure.code = some 1
  | .worktreeList _, r => ∃ stdout, r = .ok stdout
  | .worktreeAdd stage _, r => stage ≠ .branch → r = .ok ⟨⟩
  | .now, r => ∃ timestamp : JsString, r = .ok timestamp ∧ timestamp ≠ []
  | .createWorkspaceId, r => ∃ id : WorkspaceId, r = .ok id ∧ id.text.length ≤ 256
  | .delay _, _ => True

variable (lib) in
/-- The worktree of the target, as git lists it. -/
def Target.Owns (target : Target) (worktree : GitWorktreeInfo) : Prop :=
  worktree.head.map toLowerAscii = some target.commit ∧
    worktree.branch = some (branchRef (worktreeBranch (target.key lib))) ∧
    worktree.lockedReason = some (lockReason (target.key lib))

variable (lib) in
/-- git lists the worktree of the target at a path. -/
def Target.Listed (target : Target) (site : Site) (repoRoot path : JsString) : Prop :=
  ∃ canonical, site.files.realpath path = .ok canonical ∧
    ∃ worktree ∈ parseWorktreePorcelain (site.listing repoRoot),
      site.files.realpath worktree.path = .ok canonical ∧ target.Owns lib worktree

/-- How often a request has looked for a failed creation. -/
def looks (seen : Trace Call Answer) : Nat :=
  seen.countP fun e =>
    match e.1 with
    | .sql (.selectEvent _ .createFailed) => true
    | _ => false

/-- The next look at git's list has to find the worktree: something is at its
path, git has refused its branch, or (if they are strict) it is the last look of
a request that waits. -/
def Decisive (strict : Prop) (seen : Trace Call Answer) (path : JsString) : Prop :=
  (⟨.lstat path, .ok ⟨⟩⟩ : (c : Call) × Answer c) ∈ seen ∨
  (∃ worktree failure, worktree.worktreePath = path ∧
    (⟨.worktreeAdd .branch worktree, .error failure⟩ : (c : Call) × Answer c) ∈ seen) ∨
  (strict ∧ WORKTREE_INFLIGHT_RECONCILE_ATTEMPTS < looks seen)

variable (lib) in
/-- A step of the opens of a target in which nothing fails, and nobody else
changes anything. -/
structure Faultless (target : Target) (c : Call) (v : World) (e : Choice) : Prop where
  evolved : e.evolved = none
  answered : Answered c (handler e c v).1
  kept : v.site.files.Kept e.made
  /-- `mkdir` of the managed root makes nothing in it. -/
  mkdir : ∀ path, c = .mkdir path → ∀ root node,
    e.made.lstat (join root (target.key lib)) ≠ .ok node
  /-- A directory that git has made is there. -/
  directory : ∀ worktree, c = .worktreeAdd .directory worktree →
    ∃ canonical, e.made.realpath worktree.worktreePath = .ok canonical
  /-- The open is one of the target. -/
  source : ∀ repoRoot revision, c = .revParse repoRoot revision →
    target.repositoryOf repoRoot = target.repository ∧
    (∀ stats, v.site.files.stat repoRoot = .ok stats →
      filesystemIdentityFromStats stats = target.identity) ∧
    ∀ stdout, v.site.revision repoRoot revision = .ok stdout →
      toLowerAscii (trim stdout) = target.commit

variable (lib) in
/-- Where an open looks for the worktree of another, it is there to be found. -/
structure Recognised (target : Target) (strict : Prop) (seen : Trace Call Answer) (c : Call)
    (v : World) : Prop where
  /-- A branch that is found has not been given up. -/
  undamaged : strict → ∀ repoRoot, c = .branchCommit repoRoot (worktreeBranch (target.key lib)) →
    v.site.branches target.repository (worktreeBranch (target.key lib)) ≠ none →
    v.db.Undamaged (target.key lib)
  /-- A look that has to find the worktree finds it. -/
  found : ∀ root, Decisive strict seen (join root (target.key lib)) →
    (c = .realpath (join root (target.key lib)) →
      ∃ canonical, v.site.files.realpath (join root (target.key lib)) = .ok canonical) ∧
    ∀ repoRoot, c = .worktreeList repoRoot →
      target.Listed lib v.site repoRoot (join root (target.key lib))

variable (lib) in
/-- A step of the opens of a target. -/
structure Ordinary (target : Target) (strict : Prop) (seen : Trace Call Answer) (c : Call)
    (v : World) (e : Choice) : Prop
    extends Faultless lib target c v e, Recognised lib target strict seen c v

variable (lib) in
/-- The calls that the opens of a target make. -/
def Fits (target : Target) (strict : Prop) (w : World) : Call → Prop
  | .sql (.register values) =>
      values.registration.For lib target ∧
        (values.journalAction = .created ∨ values.journalAction = .reconciled) ∧
        w.Intended (target.key lib) ∧
        values.workspaceRow.Readable lib values.candidateWorkspaceId ∧
        w.site.files.Available values.workspaceRow
  | .sql (.append event) =>
      event.workspaceId = none ∧ (strict → event.action = .createIntent)
  | .sql (.requireCleanup _ _ _) => ¬ strict
  | .sql (.reuse _ requestedPath timestamp ownerInstance) =>
      requestedPath ≠ [] ∧ timestamp ≠ [] ∧ ownerInstance ≠ some []
  | .sql (.upsertCheckout _ _) => False
  | .sql (.setStatus _ _) => False
  | .worktreeAdd _ worktree =>
      target.repositoryOf worktree.repoRoot = target.repository ∧
        worktree.baseCommit = target.commit ∧ w.Intended (target.key lib)
  | _ => True

section
variable {target : Target} {strict : Prop} {seen : Trace Call Answer} {c : Call} {v : World}
  {e : Choice}

/-- The files after a call: the same, or those of a directory that was made. -/
theorem handler_files (he : e.evolved = none) (c : Call) (w : World) :
    (handler e c w).2.site.files = w.site.files ∨
    (∃ path, c = .mkdir path ∧
      (handler e c w).2.site.files = w.site.files.extend e.made) ∨
    ∃ worktree, c = .worktreeAdd .directory worktree ∧
      (handler e c w).2.site.files = (w.site.addDirectory worktree e.made).files := by
  have hhandler : handler e c w = w.answer e c := by
    unfold handler
    rw [World.evolve_none he]
  rw [hhandler]
  cases c with
  | sql s =>
      left
      unfold World.answer
      cases e.sqlFault <;> rfl
  | mkdir path =>
      cases hfault : e.mkdirFault with
      | none => exact .inr (.inl ⟨path, rfl, by simp only [World.answer, Site.mkdir, hfault]⟩)
      | some fault => exact .inl (by simp only [World.answer, Site.mkdir, hfault])
  | worktreeAdd stage worktree =>
      simp only [World.answer, Site.worktreeAdd]
      cases hfault : e.gitFailure with
      | some fault => exact .inl rfl
      | none =>
          cases stage with
          | branch =>
              left
              simp only [Site.addBranch]
              split <;> rfl
          | directory => exact .inr (.inr ⟨worktree, rfl, rfl⟩)
          | entry => exact .inl rfl
  | _ => exact .inl rfl

/-- What the opens write into the journal. -/
theorem journal_run {s : Statement} {w : World} (hs : Fits lib target strict w (.sql s))
    (hstrict : strict) {event : JournalEvent} (hevent : event ∈ (s.run w.db).2.journal) :
    event ∈ w.db.journal ∨ event.action ≠ .createFailed ∧ event.action ≠ .cleanupIntent := by
  have hadded : ∀ {added : JournalEvent}, event ∈ w.db.journal ++ [added] →
      added.action ≠ .createFailed ∧ added.action ≠ .cleanupIntent →
      event ∈ w.db.journal ∨ event.action ≠ .createFailed ∧ event.action ≠ .cleanupIntent := by
    intro added h haction
    obtain h | h := List.mem_append.mp h
    · exact .inl h
    · exact .inr (List.mem_singleton.mp h ▸ haction)
  cases s.run_change w.db with
  | same hworkspaces hmanaged hjournal => exact .inl (hjournal ▸ hevent)
  | event added heq hdb =>
      subst heq
      rw [hdb] at hevent
      refine hadded hevent ?_
      rw [hs.2 hstrict]
      exact ⟨by decide, by decide⟩
  | row id old new hold hlater hworkspaces hmanaged hjournal => exact .inl (hjournal ▸ hevent)
  | checkout id values hfree hworkspaces hmanaged hjournal => exact .inl (hjournal ▸ hevent)
  | giveUp key id timestamp m heq hm hactive hworkspaces hmanaged hjournal =>
      subst heq
      exact absurd hstrict hs
  | registration values heq hid hfree hworkspaces hmanaged hjournal =>
      subst heq
      rw [hjournal] at hevent
      refine hadded hevent ?_
      change values.journalAction ≠ .createFailed ∧ values.journalAction ≠ .cleanupIntent
      obtain ⟨-, haction | haction, -⟩ := hs
      · rw [haction]
        exact ⟨by decide, by decide⟩
      · rw [haction]
        exact ⟨by decide, by decide⟩

/-- Every call of the opens leaves what others have seen. -/
theorem Ordinary.follows (he : Ordinary lib target strict seen c v e)
    (hc : Fits lib target strict v c) : Follows lib target strict v (handler e c v).2 where
  journal := handler_journal e c v
  rows := handler_rowsLater e c v
  managed m hm := by
    obtain hdb | ⟨s, -, hdb⟩ := handler_db e c v
    · exact ⟨m, hdb ▸ hm, rfl⟩
    · rw [hdb]
      obtain hsame | ⟨id, timestamp, -, hgiven, -⟩ := (s.run_change v.db).managed hm
      · exact ⟨m, hsame, rfl⟩
      · exact ⟨_, hgiven, rfl⟩
  files := by
    obtain h | ⟨path, -, h⟩ | ⟨worktree, -, h⟩ := handler_files he.evolved c v
    · exact h ▸ .refl _
    · exact h ▸ ⟨he.kept.realpath, he.kept.stat⟩
    · exact h ▸ ⟨he.kept.realpath, he.kept.stat⟩
  undamaged hstrict hv event hevent hkey := by
    obtain hdb | ⟨s, rfl, hdb⟩ := handler_db e c v
    · exact hv event (hdb ▸ hevent) hkey
    · rw [hdb] at hevent
      obtain hbefore | haction := journal_run hc hstrict hevent
      · exact hv event hbefore hkey
      · exact haction

/-- Roots belong to the repositories they belonged to, and revisions stay. -/
theorem handler_repository (he : e.evolved = none) (c : Call) (w : World) :
    (handler e c w).2.site.repository = w.site.repository ∧
      (handler e c w).2.site.revision = w.site.revision := by
  unfold handler
  rw [World.evolve_none he]
  cases c with
  | sql s =>
      unfold World.answer
      cases e.sqlFault <;> exact ⟨rfl, rfl⟩
  | mkdir path =>
      simp only [World.answer, Site.mkdir]
      cases e.mkdirFault <;> exact ⟨rfl, rfl⟩
  | worktreeAdd stage worktree =>
      simp only [World.answer, Site.worktreeAdd]
      cases e.gitFailure with
      | some fault => exact ⟨rfl, rfl⟩
      | none =>
          cases stage with
          | branch =>
              simp only [Site.addBranch]
              split <;> exact ⟨rfl, rfl⟩
          | _ => exact ⟨rfl, rfl⟩
  | _ => exact ⟨rfl, rfl⟩

/-- A branch after a call was there, or is one that git has made. -/
theorem handler_branches (he : e.evolved = none) (c : Call) (w : World)
    {repository branch commit : JsString}
    (h : (handler e c w).2.site.branches repository branch = some commit) :
    w.site.branches repository branch = some commit ∨
    ∃ worktree, c = .worktreeAdd .branch worktree ∧ commit = worktree.baseCommit := by
  unfold handler at h
  rw [World.evolve_none he] at h
  cases c with
  | sql s =>
      unfold World.answer at h
      cases hfault : e.sqlFault <;> rw [hfault] at h <;> exact .inl h
  | mkdir path =>
      simp only [World.answer, Site.mkdir] at h
      cases hfault : e.mkdirFault <;> rw [hfault] at h <;> exact .inl h
  | worktreeAdd stage worktree =>
      simp only [World.answer, Site.worktreeAdd] at h
      cases hfault : e.gitFailure with
      | some fault =>
          rw [hfault] at h
          exact .inl h
      | none =>
          rw [hfault] at h
          cases stage with
          | branch =>
              simp only [Site.addBranch] at h
              split at h
              · exact .inl h
              · dsimp only at h
                split at h
                · exact .inr ⟨worktree, rfl, (Option.some.inj h).symm⟩
                · exact .inl h
          | directory => exact .inl h
          | entry => exact .inl h
  | _ => exact .inl h

theorem Target.Held.kept {files files' : Files} {db : Database}
    (h : target.Held lib strict files db) (hkept : files.Kept files') :
    target.Held lib strict files' db := by
  intro m hm
  obtain ⟨row, hrow, hreadable, hstrict⟩ := h m hm
  exact ⟨row, hrow, hreadable, fun hs => ⟨(hstrict hs).1, (hstrict hs).2.kept hkept⟩⟩

theorem readable_reuse {row : WorkspaceRow} {id requestedPath timestamp : JsString}
    {ownerInstance : Option JsString} (h : row.Readable lib id) (hpath : requestedPath ≠ [])
    (htimestamp : timestamp ≠ []) (howner : ownerInstance ≠ some []) :
    (row.reuse requestedPath timestamp ownerInstance).Readable lib id := by
  obtain ⟨hid, hid', hcanonical, -, hroot, hworktree, hbase, hbranch, hcreated, -, -, hversion⟩ :=
    WorkspaceRecord.check_iff.mp h
  exact WorkspaceRecord.check_iff.mpr ⟨hid, hid', hcanonical, lib.lengths.pos _ hpath, hroot,
    hworktree, hbase, hbranch, hcreated, lib.lengths.pos _ htimestamp,
    Lengths.checkNullable_of_ne howner, Nat.le_succ_of_le hversion⟩

/-- The tables after a worktree was given up, or was not active any more. -/
theorem requireCleanup_tables {db db' : Database} {key id timestamp : JsString}
    (h : db.requireCleanup key id timestamp = .ok db') :
    db'.workspaces = db.workspaces ∧ db'.managed = (db.updateManaged key timestamp).1.managed := by
  unfold Database.requireCleanup at h
  dsimp only at h
  split at h
  · cases hid : parseEntityId "workspace" id with
    | error e =>
        rw [hid] at h
        cases h
    | ok id' =>
        rw [hid] at h
        obtain rfl := Except.ok.inj h
        exact ⟨rfl, rfl⟩
  · obtain rfl := Except.ok.inj h
    exact ⟨rfl, rfl⟩

/-- Giving up changes neither the keys nor the workspaces of managed rows. -/
theorem updateManaged_find? {db : Database} {key timestamp k : JsString} {m : ManagedWorktreeRow}
    (h : (db.updateManaged key timestamp).1.managed.find? k = some m) :
    ∃ old, db.managed.find? k = some old ∧ m.workspaceId = old.workspaceId := by
  unfold Database.updateManaged at h
  rw [Table.find?_updateKey] at h
  split at h
  · obtain ⟨old, hold, rfl⟩ := Option.map_eq_some_iff.mp h
    refine ⟨old, hold, ?_⟩
    split <;> rfl
  · exact ⟨m, h, rfl⟩

/-- What the opens do to the tables keeps the workspace of the key. -/
theorem Target.Held.run {s : Statement} {w : World} (h : target.Held lib strict w.site.files w.db)
    (hs : Fits lib target strict w (.sql s)) :
    target.Held lib strict w.site.files (s.run w.db).2 := by
  cases s with
  | selectManaged key => exact h
  | selectWorkspace id => exact h
  | selectEvent key action => exact h
  | append event => exact h
  | upsertCheckout id values => exact hs.elim
  | setStatus id status => exact hs.elim
  | reuse id requestedPath timestamp ownerInstance =>
      obtain ⟨hpath, htimestamp, howner⟩ := hs
      intro m hm
      obtain ⟨row, hrow, hreadable, hstrict⟩ := h m hm
      have hfind : ((Statement.reuse id requestedPath timestamp ownerInstance).run
          w.db).2.workspaces.find? m.workspaceId
          = if m.workspaceId = id then some (row.reuse requestedPath timestamp ownerInstance)
            else some row := by
        change (w.db.workspaces.updateKey id (fun _ => true) _).1.find? m.workspaceId = _
        rw [Table.find?_updateKey, hrow]
        rfl
      split at hfind
      · exact ⟨_, hfind, readable_reuse hreadable hpath htimestamp howner, hstrict⟩
      · exact ⟨row, hfind, hreadable, hstrict⟩
  | requireCleanup key id timestamp =>
      intro m hm
      cases hresult : w.db.requireCleanup key id timestamp with
      | error x =>
          have hdb : ((Statement.requireCleanup key id timestamp).run w.db).2 = w.db := by
            simp only [Statement.run, hresult, Except.map, Database.orRollback]
          rw [hdb] at hm ⊢
          exact h m hm
      | ok db' =>
          have hdb : ((Statement.requireCleanup key id timestamp).run w.db).2 = db' := by
            simp only [Statement.run, hresult, Except.map, Database.orRollback]
          obtain ⟨hworkspaces, hmanaged⟩ := requireCleanup_tables hresult
          rw [hdb] at hm ⊢
          rw [hmanaged] at hm
          obtain ⟨old, hold, hid⟩ := updateManaged_find? hm
          obtain ⟨row, hrow, hreadable, -⟩ := h old hold
          rw [hworkspaces, hid]
          exact ⟨row, hrow, hreadable, fun hstrict => absurd hstrict hs⟩
  | register values =>
      obtain ⟨hfor, -, -, hreadable, havailable⟩ := hs
      intro m hm
      cases hresult : w.db.register values with
      | error x =>
          have hdb : ((Statement.register values).run w.db).2 = w.db := by
            simp only [Statement.run, hresult, Database.orRollback]
          rw [hdb] at hm ⊢
          exact h m hm
      | ok result =>
          obtain ⟨id, db'⟩ := result
          have hdb : ((Statement.register values).run w.db).2 = db' := by
            simp only [Statement.run, hresult, Database.orRollback]
          rw [hdb] at hm ⊢
          obtain ⟨rfl, -⟩ | ⟨-, -, -, hmanaged, hworkspace⟩ := Database.register_eq_ok hresult
          · exact h m hm
          · rw [hfor.key, hm] at hmanaged
            obtain rfl := Option.some.inj hmanaged
            exact ⟨values.workspaceRow, hworkspace, hreadable, fun _ => ⟨rfl, havailable⟩⟩

/-- What the opens register under the key is of the target. -/
theorem source_run {s : Statement} {w : World} (hs : Fits lib target strict w (.sql s))
    (h : ∀ m, w.db.managed.find? (target.key lib) = some m →
      m.source = (target.identity, target.commit)) {m : ManagedWorktreeRow}
    (hm : (s.run w.db).2.managed.find? (target.key lib) = some m) :
    m.source = (target.identity, target.commit) := by
  cases s.run_change w.db with
  | same hworkspaces hmanaged hjournal => exact h m (hmanaged _ ▸ hm)
  | event added heq hdb =>
      rw [hdb] at hm
      exact h m hm
  | row id old new hold hlater hworkspaces hmanaged hjournal => exact h m (hmanaged _ ▸ hm)
  | checkout id values hfree hworkspaces hmanaged hjournal => exact h m (hmanaged _ ▸ hm)
  | giveUp key id timestamp old heq hold hactive hworkspaces hmanaged hjournal =>
      rw [hmanaged] at hm
      split at hm
      · rename_i hkey
        obtain rfl := Option.some.inj hm
        exact h old (hkey ▸ hold)
      · exact h m hm
  | registration values heq hid hfree hworkspaces hmanaged hjournal =>
      subst heq
      rw [hmanaged] at hm
      split at hm
      · obtain rfl := Option.some.inj hm
        exact Prod.ext hs.1.identity hs.1.commit
      · exact h m hm

theorem Fits.proper {s : Statement} {w : World} (hs : Fits lib target strict w (.sql s)) :
    s.Proper lib w.db := by
  cases s with
  | append event => exact hs.1
  | register values => exact ⟨hs.1.named, hs.2.1, hs.1.key ▸ hs.2.2.1⟩
  | _ => trivial

/-- A call of the opens keeps what holds between their calls. -/
theorem Orderly.call (h : Orderly lib target strict v)
    (he : Ordinary lib target strict seen c v e) (hc : Fits lib target strict v c) :
    Orderly lib target strict (handler e c v).2 where
  consistent := handler_consistent e h.consistent fun s hs => by
    subst hs
    exact hc.proper
  repository := (handler_repository he.evolved c v).1.trans h.repository
  branch commit hbranch := by
    obtain hbefore | ⟨worktree, rfl, rfl⟩ := handler_branches he.evolved c v hbranch
    · obtain ⟨hcommit, hintended⟩ := h.branch commit hbefore
      exact ⟨hcommit, (he.follows hc).intended hintended⟩
    · exact ⟨hc.2.1, (he.follows hc).intended hc.2.2⟩
  path root node hnode := by
    obtain heq | ⟨path, rfl, heq⟩ | ⟨worktree, rfl, -⟩ := handler_files he.evolved c v
    · rw [heq] at hnode
      exact (he.follows hc).intended (h.path root node hnode)
    · rw [heq] at hnode
      simp only [Files.extend] at hnode
      split at hnode
      · rename_i node' hbefore
        exact (he.follows hc).intended (h.path root node' hbefore)
      · exact absurd hnode (he.mkdir path rfl root node)
    · exact (he.follows hc).intended hc.2.2
  held := by
    obtain hdb | ⟨s, rfl, hdb⟩ := handler_db e c v
    · rw [hdb]
      exact h.held.kept (he.follows hc).files
    · rw [hdb]
      exact (h.held.run hc).kept (he.follows hc).files
  source m hm := by
    obtain hdb | ⟨s, rfl, hdb⟩ := handler_db e c v
    · exact h.source m (hdb ▸ hm)
    · rw [hdb] at hm
      exact source_run hc h.source hm

end

/-! ## Calls -/

variable (lib) in
/-- Opens that run at once rely on each other. -/
def targetRules (target : Target) (strict : Prop) : Rules Call Answer World Choice where
  handler := handler
  inv := Orderly lib target strict
  rely := Follows lib target strict
  guar _ _ := Follows lib target strict
  refl := .refl target strict
  trans := .trans

variable (lib) in
/-- A later point of an open. -/
structure After (target : Target) (strict : Prop) (seen : Trace Call Answer) (w : World)
    (seen' : Trace Call Answer) (u : World) : Prop where
  trace : seen <+: seen'
  world : Follows lib target strict w u

theorem After.trans {target : Target} {strict : Prop} {seen seen' seen'' : Trace Call Answer} {u v w : World}
    (h : After lib target strict seen u seen' v) (h' : After lib target strict seen' v seen'' w) :
    After lib target strict seen u seen'' w := ⟨h.trace.trans h'.trace, h.world.trans h'.world⟩

theorem After.later {target : Target} {strict : Prop} {seen seen' : Trace Call Answer} {u v w : World}
    (h : After lib target strict seen u seen' v) (h' : Follows lib target strict v w) :
    After lib target strict seen u seen' w := ⟨h.trace, h.world.trans h'⟩

theorem looks_mono {seen seen' : Trace Call Answer} (h : seen <+: seen') :
    looks seen ≤ looks seen' := h.sublist.countP_le

theorem Decisive.mono {strict : Prop} {seen seen' : Trace Call Answer} {path : JsString}
    (h : Decisive strict seen path) (hseen : seen <+: seen') : Decisive strict seen' path := by
  obtain h | ⟨worktree, failure, hpath, h⟩ | ⟨hstrict, h⟩ := h
  · exact .inl (hseen.subset h)
  · exact .inr (.inl ⟨worktree, failure, hpath, hseen.subset h⟩)
  · exact .inr (.inr ⟨hstrict, h.trans_le (looks_mono hseen)⟩)

section
variable {target : Target} {strict : Prop} {seen : Trace Call Answer} {w : World}
  {registration : ManagedWorktreeRegistration}

/-- One call of the opens, with what is known where it is made. -/
theorem opens_call {c : Call} {answer : Answer c → Except Thrown α}
    {P : Trace Call Answer → α → World → Prop} {X : Trace Call Answer → Thrown → World → Prop}
    (hc : ∀ v, Follows lib target strict w v → Orderly lib target strict v → Fits lib target strict v c)
    (hpost : ∀ v e u, Follows lib target strict w v → Orderly lib target strict v →
      Ordinary lib target strict seen c v e → After lib target strict seen w
        (seen ++ [⟨c, (handler e c v).1⟩]) u → Follows lib target strict (handler e c v).2 u →
      match answer (handler e c v).1 with
      | .ok a => P (seen ++ [⟨c, (handler e c v).1⟩]) a u
      | .error x => X (seen ++ [⟨c, (handler e c v).1⟩]) x u) :
    Async.Safe (targetRules lib target strict) (Ordinary lib target strict) (.request c answer) P X
      seen w := by
  refine Async.safe_request fun v hv hinv e he => ?_
  refine ⟨hinv.call he (hc v hv hinv), he.follows (hc v hv hinv), fun u hu _ => ?_⟩
  have hafter := (hv.trans (he.follows (hc v hv hinv))).trans hu
  have hend := hpost v e u hv hinv he ⟨List.prefix_append _ _, hafter⟩ hu
  split
  · rename_i a ha
    have hanswer : answer (handler e c v).1 = .ok a := ha
    rw [hanswer] at hend
    exact hend
  · rename_i x hx
    have hanswer : answer (handler e c v).1 = .error x := hx
    rw [hanswer] at hend
    exact hend

/-- A statement. -/
theorem opens_sql {s : Statement} {P : Trace Call Answer → s.Result → World → Prop}
    {X : Trace Call Answer → Thrown → World → Prop}
    (hc : ∀ v, Follows lib target strict w v → Orderly lib target strict v →
      Fits lib target strict v (.sql s))
    (hpost : ∀ v a u, Follows lib target strict w v → Orderly lib target strict v →
      Orderly lib target strict { v with db := (s.run v.db).2 } →
      (s.run v.db).1 = .ok a → Follows lib target strict { v with db := (s.run v.db).2 } u →
      After lib target strict seen w (seen ++ [⟨.sql s, .ok a⟩]) u →
      P (seen ++ [⟨.sql s, .ok a⟩]) a u) :
    Async.Safe (targetRules lib target strict) (Ordinary lib target strict) (sql s) P X seen w := by
  refine opens_call hc fun v e u hv hinv he hafter hu => ?_
  obtain ⟨a, ha⟩ := he.answered
  obtain ⟨hrun, hworld⟩ := handler_sql_ok ha
  rw [World.evolve_none he.evolved] at hworld
  have hinv' := hinv.call he (hc v hv hinv)
  rw [hworld] at hu hinv'
  rw [ha] at hafter ⊢
  exact hpost v a u hv hinv hinv' hrun hu hafter

/-- What `realpath` answers is still answered; and a look that has to find the
worktree, or a path that was answered before, does not fail. -/
theorem opens_realpath (path : JsString) :
    Async.Safe (targetRules lib target strict) (Ordinary lib target strict) (realpath path)
      (fun seen' canonical u => After lib target strict seen w seen' u ∧ canonical ≠ [] ∧
        u.site.files.realpath path = .ok canonical)
      (fun seen' _ u => After lib target strict seen w seen' u ∧
        (∀ canonical, w.site.files.realpath path ≠ .ok canonical) ∧
        ∀ root, path = join root (target.key lib) → ¬ Decisive strict seen path) seen w := by
  refine opens_call (fun _ _ _ => trivial) fun v e u hv _ he hafter hu => ?_
  have hanswer : (handler e (.realpath path) v).1 = v.site.files.realpath path := by
    change (v.evolve e).site.files.realpath path = _
    rw [World.evolve_none he.evolved]
  have hworld : v.site.files.Kept u.site.files := ((he.follows trivial).trans hu).files
  rw [hanswer] at hafter ⊢
  cases hpath : v.site.files.realpath path with
  | ok canonical =>
      rw [hpath] at hafter
      exact ⟨hafter, he.answered canonical (hanswer.trans hpath), hworld.realpath _ _ hpath⟩
  | error x =>
      rw [hpath] at hafter
      refine ⟨hafter, fun canonical h => ?_, fun root hroot hdecisive => ?_⟩
      · have hstill := hv.files.realpath _ _ h
        rw [hpath] at hstill
        cases hstill
      · subst hroot
        obtain ⟨canonical, h⟩ := (he.found root hdecisive).1 rfl
        rw [hpath] at h
        cases h

theorem opens_stat (path : JsString) {X : Trace Call Answer → Thrown → World → Prop} :
    Async.Safe (targetRules lib target strict) (Ordinary lib target strict) (stat path)
      (fun seen' stats u => After lib target strict seen w seen' u ∧ stats.isDirectory = true ∧
        u.site.files.stat path = .ok stats) X seen w := by
  refine opens_call (fun _ _ _ => trivial) fun v e u hv _ he hafter hu => ?_
  have hanswer : (handler e (.stat path) v).1 = v.site.files.stat path := by
    change (v.evolve e).site.files.stat path = _
    rw [World.evolve_none he.evolved]
  have hworld : v.site.files.Kept u.site.files := ((he.follows trivial).trans hu).files
  obtain ⟨stats, hstats, hdirectory⟩ := he.answered
  rw [hstats] at hafter ⊢
  exact ⟨hafter, hdirectory, hworld.stat _ _ (hanswer.symm.trans hstats)⟩

theorem opens_now {X : Trace Call Answer → Thrown → World → Prop} :
    Async.Safe (targetRules lib target strict) (Ordinary lib target strict) now
      (fun seen' timestamp u => After lib target strict seen w seen' u ∧ timestamp ≠ []) X seen w := by
  refine opens_call (fun _ _ _ => trivial) fun v e u hv _ he hafter hu => ?_
  obtain ⟨timestamp, hanswer, hne⟩ := he.answered
  rw [hanswer] at hafter ⊢
  exact ⟨hafter, hne⟩

theorem opens_createWorkspaceId {X : Trace Call Answer → Thrown → World → Prop} :
    Async.Safe (targetRules lib target strict) (Ordinary lib target strict) createWorkspaceId
      (fun seen' id u => After lib target strict seen w seen' u ∧ id.text.length ≤ 256) X seen w := by
  refine opens_call (fun _ _ _ => trivial) fun v e u hv _ he hafter hu => ?_
  obtain ⟨id, hanswer, hlength⟩ := he.answered
  rw [hanswer] at hafter ⊢
  exact ⟨hafter, hlength⟩

theorem opens_delay {milliseconds : Nat} {X : Trace Call Answer → Thrown → World → Prop} :
    Async.Safe (targetRules lib target strict) (Ordinary lib target strict) (delay milliseconds)
      (fun seen' _ u => After lib target strict seen w seen' u) X seen w :=
  opens_call (fun _ _ _ => trivial) fun _ _ _ _ _ _ hafter _ => hafter

/-- A question to the journal. What it has found stays; if the opens are strict,
it finds no failure later. -/
theorem opens_hasAction (key : JsString) (action : JournalAction)
    {X : Trace Call Answer → Thrown → World → Prop} :
    Async.Safe (targetRules lib target strict) (Ordinary lib target strict)
      (hasWorktreeJournalAction key action)
      (fun seen' found u => After lib target strict seen w seen' u ∧
        seen' = seen ++ [⟨.sql (.selectEvent key action), .ok found⟩] ∧
        (found = true → u.db.hasAction key action = true) ∧
        (w.db.hasAction key action = true → found = true) ∧
        (strict → w.db.Undamaged (target.key lib) → key = target.key lib →
          action = .createFailed ∨ action = .cleanupIntent → found = false)) X seen w := by
  refine opens_sql (fun _ _ _ => trivial) fun v found u hv hinv _ hrun hu hafter => ?_
  have hfound : v.db.hasAction key action = found := Except.ok.inj hrun
  refine ⟨hafter, rfl, fun h => hasAction_later hu.journal (hfound.trans h), fun h => ?_,
    fun hstrict hundamaged hkey haction => ?_⟩
  · exact hfound.symm.trans (hasAction_later hv.journal h)
  · rw [← hfound, Bool.eq_false_iff]
    intro h
    obtain ⟨event, hmem, hevent, heq⟩ := hasAction_iff.mp h
    obtain ⟨hfailed, hcleanup⟩ := hv.undamaged hstrict hundamaged event hmem (hevent.trans hkey)
    obtain rfl | rfl := haction
    · exact hfailed heq
    · exact hcleanup heq

theorem opens_append {key : JsString} {action : JournalAction} {details : List (String × JsString)}
    (haction : strict → action = .createIntent)
    {X : Trace Call Answer → Thrown → World → Prop} :
    Async.Safe (targetRules lib target strict) (Ordinary lib target strict)
      (appendWorktreeJournal key action details)
      (fun seen' _ u => After lib target strict seen w seen' u ∧ u.db.hasAction key action = true) X
      seen w := by
  refine opens_sql (fun _ _ _ => ⟨rfl, haction⟩) fun v a u hv _ _ _ hu hafter => ?_
  refine ⟨hafter, hasAction_later hu.journal (hasAction_iff.mpr ?_)⟩
  exact ⟨_, List.mem_append_right _ (List.mem_singleton_self _), rfl, rfl⟩

/-! ## Registering -/

variable (lib) in
/-- The key is registered for the workspace. -/
def Target.HasWorkspace (target : Target) (w : World) (workspaceId : JsString) : Prop :=
  ∃ m, w.db.managed.find? (target.key lib) = some m ∧ m.workspaceId = workspaceId

theorem Target.HasWorkspace.later {v : World} {id : JsString} (h : target.HasWorkspace lib v id)
    (hw : Follows lib target strict v w) : target.HasWorkspace lib w id := by
  obtain ⟨m, hm, rfl⟩ := h
  exact hw.managed m hm

theorem opens_selectWorkspace {id : JsString} (hid : target.HasWorkspace lib w id)
    {X : Trace Call Answer → Thrown → World → Prop} :
    Async.Safe (targetRules lib target strict) (Ordinary lib target strict)
      (sql (.selectWorkspace id))
      (fun seen' (found : Option WorkspaceRow) u => After lib target strict seen w seen' u ∧
        ∃ v row, found = some row ∧ row.Readable lib id ∧
          v.db.workspaces.find? id = some row ∧ Follows lib target strict w v ∧ Follows lib target strict v u ∧
          (strict → v.site.files.Available row)) X seen w := by
  refine opens_sql (fun _ _ _ => trivial) fun v found u hv hinv _ hrun hu hafter => ?_
  obtain ⟨m, hm, rfl⟩ := hid.later hv
  obtain ⟨row, hrow, hreadable, hstrict⟩ := hinv.held m hm
  have hfound : v.db.workspaces.find? m.workspaceId = found := Except.ok.inj hrun
  exact ⟨hafter, v, row, hfound.symm.trans hrow, hreadable, hrow, hv, hu,
    fun hs => (hstrict hs).2⟩

theorem opens_read {id : JsString} (hid : target.HasWorkspace lib w id)
    {X : Trace Call Answer → Thrown → World → Prop} :
    Async.Safe (targetRules lib target strict) (Ordinary lib target strict) (read lib id)
      (fun seen' record u => After lib target strict seen w seen' u ∧
        ∃ v row, record = some (row.fields id) ∧ v.db.workspaces.find? id = some row ∧
          Follows lib target strict v u) X seen w := by
  refine Async.Safe.bind (X := fun _ _ _ => False) (opens_selectWorkspace hid)
    (fun seen' found u _ h => ?_) fun _ _ _ _ h _ _ _ => h.elim
  obtain ⟨hafter, v, row, rfl, hreadable, hrow, -, hu, -⟩ := h
  dsimp only
  rw [rowToWorkspaceRecord_eq_ok hreadable]
  exact Async.safe_pure fun u' hu' _ => ⟨hafter.later hu', v, row, rfl, hrow, hu.trans hu'⟩

theorem opens_readRequired {id : JsString} (hid : target.HasWorkspace lib w id)
    {X : Trace Call Answer → Thrown → World → Prop} :
    Async.Safe (targetRules lib target strict) (Ordinary lib target strict) (readRequired lib id)
      (fun seen' record u => After lib target strict seen w seen' u ∧ record.workspaceId = id) X
      seen w := by
  refine Async.Safe.bind (X := fun _ _ _ => False) (opens_read hid)
    (fun seen' record u _ h => ?_) fun _ _ _ _ h _ _ _ => h.elim
  obtain ⟨hafter, v, row, rfl, -, -⟩ := h
  exact Async.safe_pure fun u' hu' _ => ⟨hafter.later hu', rfl⟩

theorem opens_resolveDirectory {path canonical : JsString}
    (hpath : w.site.files.realpath path = .ok canonical)
    {X : Trace Call Answer → Thrown → World → Prop} :
    Async.Safe (targetRules lib target strict) (Ordinary lib target strict)
      (resolveWorkspaceDirectory path)
      (fun seen' directory u => After lib target strict seen w seen' u ∧ directory.1 ≠ [] ∧
        ∃ stats, u.site.files.stat directory.1 = .ok stats ∧ stats.isDirectory = true ∧
          directory.2 = filesystemIdentityFromStats stats) X seen w := by
  refine Async.Safe.bind
    (P := fun seen' canonical u => After lib target strict seen w seen' u ∧ canonical ≠ [])
    (X := fun _ _ _ => False)
    (Async.Safe.mapError (opens_realpath path)
      (fun _ _ _ _ h u hu _ => ⟨h.1.later hu, h.2.1⟩)
      fun _ _ _ _ h _ _ _ => h.2.1 canonical hpath)
    (fun seen' canonical u _ h => ?_) fun _ _ _ _ h _ _ _ => h.elim
  refine Async.Safe.bind
    (P := fun seen'' stats v => After lib target strict seen' u seen'' v ∧ stats.isDirectory = true ∧
      v.site.files.stat canonical = .ok stats)
    (X := fun _ _ _ => False)
    (Async.Safe.mapError (X := fun _ _ _ => False) (opens_stat canonical)
      (fun _ _ _ _ h v hv _ => ⟨h.1.later hv, h.2.1, hv.files.stat _ _ h.2.2⟩)
      fun _ _ _ _ h _ _ _ => h.elim)
    (fun seen'' stats v _ hstats => ?_) fun _ _ _ _ h _ _ _ => h.elim
  obtain ⟨hafter, hdirectory, hstats⟩ := hstats
  rw [hdirectory]
  exact Async.safe_pure fun v' hv' _ => ⟨(h.1.trans hafter).later hv', h.2, stats,
    hv'.files.stat _ _ hstats, hdirectory, rfl⟩

/-- A new workspace row can be read. -/
theorem readable_workspaceRow {values : RegistrationValues}
    (hfor : values.registration.For lib target) (hid : values.candidateWorkspaceId ≠ [])
    (hlength : values.candidateWorkspaceId.length ≤ 256) (hpath : values.canonicalPath ≠ [])
    (htimestamp : values.timestamp ≠ []) (howner : values.ownerInstance ≠ some []) :
    values.workspaceRow.Readable lib values.candidateWorkspaceId := by
  have hcommit : values.registration.baseCommit ≠ [] := by
    intro h
    have hcommitId := hfor.commitId
    rw [h] at hcommitId
    exact absurd hcommitId (by decide)
  have hbranch : values.registration.branch ≠ [] := by
    rw [hfor.branch]
    exact List.append_ne_nil_of_left_ne_nil (by decide) _
  exact WorkspaceRecord.check_iff.mpr ⟨lib.lengths.pos _ hid,
    (lib.lengths.le _).trans hlength, lib.lengths.pos _ hpath,
    lib.lengths.pos _ hfor.requestedPath_ne, Lengths.checkNullable_some hfor.repoRoot_ne,
    Lengths.checkNullable_some hpath, Lengths.checkNullable_some hcommit,
    Lengths.checkNullable_some hbranch, lib.lengths.pos _ htimestamp, lib.lengths.pos _ htimestamp,
    Lengths.checkNullable_of_ne howner, le_rfl⟩

/-- The registration ends with the workspace of the key. -/
theorem opens_register {values : RegistrationValues}
    (hc : ∀ v, Follows lib target strict w v → Orderly lib target strict v →
      Fits lib target strict v (.sql (.register values)))
    (hfor : values.registration.For lib target)
    {X : Trace Call Answer → Thrown → World → Prop} :
    Async.Safe (targetRules lib target strict) (Ordinary lib target strict)
      (sql (.register values))
      (fun seen' (id : JsString) u => After lib target strict seen w seen' u ∧
        target.HasWorkspace lib u id) X seen w := by
  refine opens_sql hc fun v id u hv _ _ hrun hu hafter => ⟨hafter, ?_⟩
  refine Target.HasWorkspace.later ?_ hu
  have hresult := Database.orRollback_ok hrun
  obtain ⟨hdb, m, hm, -, hid⟩ | ⟨hid, -, -, hmanaged, -⟩ := Database.register_eq_ok hresult
  · have hsame : ((Statement.register values).run v.db).2 = v.db := hdb
    refine ⟨m, ?_, hid⟩
    dsimp only
    rw [hsame, ← hfor.key]
    exact hm
  · exact ⟨values.managedRow, hfor.key ▸ hmanaged, hid.symm⟩

theorem opens_registerManagedWorktree (hfor : registration.For lib target)
    {action : JournalAction} (haction : action = .created ∨ action = .reconciled)
    (hw : w.Intended (target.key lib)) {canonical : JsString}
    (hpath : w.site.files.realpath registration.worktreePath = .ok canonical)
    {X : Trace Call Answer → Thrown → World → Prop} :
    Async.Safe (targetRules lib target strict) (Ordinary lib target strict)
      (registerManagedWorktree lib registry registration action)
      (fun seen' record u => After lib target strict seen w seen' u ∧
        target.HasWorkspace lib u record.workspaceId) X seen w := by
  refine Async.Safe.bind (X := fun _ _ _ => False) (opens_resolveDirectory hpath)
    (fun seen₁ directory v₁ _ h₁ => ?_) fun _ _ _ _ h _ _ _ => h.elim
  obtain ⟨canonicalPath, filesystemIdentity⟩ := directory
  obtain ⟨hafter₁, hcanonical, stats, hstats, hdirectory, hidentity⟩ := h₁
  refine Async.Safe.bind (X := fun _ _ _ => False) opens_now
    (fun seen₂ timestamp v₂ _ h₂ => ?_) fun _ _ _ _ h _ _ _ => h.elim
  obtain ⟨hafter₂, htimestamp⟩ := h₂
  refine Async.Safe.bind (X := fun _ _ _ => False) opens_createWorkspaceId
    (fun seen₃ id v₃ _ h₃ => ?_) fun _ _ _ _ h _ _ _ => h.elim
  obtain ⟨hafter₃, hlength⟩ := h₃
  have hafter := (hafter₁.trans hafter₂).trans hafter₃
  refine Async.Safe.bind (X := fun _ _ _ => False) (opens_register (fun v hv _ => ?_) hfor)
    (fun seen₄ id v₄ _ h₄ => ?_) fun _ _ _ _ h _ _ _ => h.elim
  · refine ⟨hfor, haction, (hafter.world.trans hv).intended hw,
      readable_workspaceRow hfor id.ne_nil hlength hcanonical htimestamp registry.owner_ne, ?_⟩
    exact ⟨stats, ((hafter₂.trans hafter₃).world.trans hv).files.stat _ _ hstats, hdirectory,
      hidentity.symm⟩
  · refine (opens_readRequired h₄.2).mono (fun seen₅ record v₅ _ h₅ => ?_)
      fun _ _ _ _ h => h
    obtain ⟨hafter₅, rfl⟩ := h₅
    exact ⟨(hafter.trans h₄.1).trans hafter₅, h₄.2.later hafter₅.world⟩

/-! ## Reconciling -/

/-- `realpath(path).catch(() => null)`. -/
theorem opens_tryRealpath (path : JsString) {X : Trace Call Answer → Thrown → World → Prop} :
    Async.Safe (targetRules lib target strict) (Ordinary lib target strict)
      (tryCatch (some <$> realpath path) fun _ => return none)
      (fun seen' canonical u => After lib target strict seen w seen' u ∧
        (∀ canonicalPath, canonical = some canonicalPath →
          u.site.files.realpath path = .ok canonicalPath) ∧
        (canonical = none → (∀ canonicalPath, w.site.files.realpath path ≠ .ok canonicalPath) ∧
          ∀ root, path = join root (target.key lib) → ¬ Decisive strict seen path)) X seen w := by
  refine Async.Safe.tryCatch
    (P := fun seen' canonical u => After lib target strict seen w seen' u ∧
      ∃ canonicalPath, canonical = some canonicalPath ∧
        u.site.files.realpath path = .ok canonicalPath)
    (X := fun seen' _ u => After lib target strict seen w seen' u ∧
      (∀ canonical, w.site.files.realpath path ≠ .ok canonical) ∧
      ∀ root, path = join root (target.key lib) → ¬ Decisive strict seen path)
    (Async.Safe.map (opens_realpath path) (fun _ _ _ _ h u hu _ => ?_)
      fun _ _ _ _ h u hu _ => ⟨h.1.later hu, h.2⟩)
    (fun _ _ _ _ h u hu _ => ?_) fun _ _ _ _ h => ?_
  · exact ⟨h.1.later hu, _, rfl, hu.files.realpath _ _ h.2.2⟩
  · obtain ⟨hafter, canonicalPath, rfl, hpath⟩ := h
    refine ⟨hafter.later hu, fun _ heq => ?_, fun heq => ?_⟩
    · exact Option.some.inj heq ▸ hu.files.realpath _ _ hpath
    · cases heq
  · refine Async.safe_pure fun u hu _ => ⟨h.1.later hu, fun _ heq => ?_, fun _ => h.2⟩
    cases heq

/-- The worktree of the target among those that were listed. -/
def Target.IsIn (lib : Libraries) (target : Target) (files : Files) (canonicalPath : JsString)
    (worktrees : List GitWorktreeInfo) : Prop :=
  ∃ worktree ∈ worktrees, files.realpath worktree.path = .ok canonicalPath ∧
    target.Owns lib worktree

theorem Target.IsIn.kept {files files' : Files} {canonicalPath : JsString}
    {worktrees : List GitWorktreeInfo} (h : target.IsIn lib files canonicalPath worktrees)
    (hkept : files.Kept files') : target.IsIn lib files' canonicalPath worktrees :=
  let ⟨worktree, hmem, hpath, howns⟩ := h
  ⟨worktree, hmem, hkept.realpath _ _ hpath, howns⟩

theorem owns_of_for (hfor : registration.For lib target) {worktree : GitWorktreeInfo}
    (h : target.Owns lib worktree) : registration.owns worktree = true := by
  obtain ⟨hhead, hbranch, hlocked⟩ := h
  simp [ManagedWorktreeRegistration.owns, hhead, hbranch, hlocked, hfor.commit, hfor.branch,
    hfor.key]

/-- A worktree that is in the list is found there. -/
theorem opens_listsWorktree (hfor : registration.For lib target) {canonicalPath : JsString}
    {X : Trace Call Answer → Thrown → World → Prop} :
    ∀ (worktrees : List GitWorktreeInfo) (seen : Trace Call Answer) (w : World),
    Async.Safe (targetRules lib target strict) (Ordinary lib target strict)
      (listsWorktree registration canonicalPath worktrees)
      (fun seen' listed u => After lib target strict seen w seen' u ∧
        (target.IsIn lib w.site.files canonicalPath worktrees → listed = true)) X seen w
  | [], seen, w => by
      refine Async.safe_pure fun u hu _ => ⟨⟨List.prefix_rfl, hu⟩, fun h => ?_⟩
      obtain ⟨worktree, hmem, -⟩ := h
      cases hmem
  | worktree :: worktrees, seen, w => by
      refine Async.Safe.bind (X := fun _ _ _ => False) (opens_tryRealpath worktree.path)
        (fun seen' canonical u _ h => ?_) fun _ _ _ _ h _ _ _ => h.elim
      obtain ⟨hafter, hsome, hnone⟩ := h
      split
      · exact Async.safe_pure fun v hv _ => ⟨hafter.later hv, fun _ => rfl⟩
      · rename_i hno
        refine (opens_listsWorktree hfor worktrees seen' u).mono (fun seen'' listed v _ h => ?_)
          fun _ _ _ _ h => h
        refine ⟨hafter.trans h.1, fun hin => h.2 ?_⟩
        obtain ⟨found, hmem, hpath, howns⟩ := hin
        obtain rfl | hmem := List.mem_cons.mp hmem
        · refine absurd ⟨?_, owns_of_for hfor howns⟩ hno
          cases canonical with
          | none => exact absurd hpath ((hnone rfl).1 canonicalPath)
          | some path =>
              have hstill := hafter.world.files.realpath _ _ hpath
              rw [hsome path rfl] at hstill
              rw [Except.ok.inj hstill]
        · exact ⟨found, hmem, hafter.world.files.realpath _ _ hpath, howns⟩

theorem opens_listGitWorktrees (repoRoot : JsString)
    {X : Trace Call Answer → Thrown → World → Prop} :
    Async.Safe (targetRules lib target strict) (Ordinary lib target strict)
      (listGitWorktrees repoRoot)
      (fun seen' worktrees u => After lib target strict seen w seen' u ∧
        ∀ root, Decisive strict seen (join root (target.key lib)) → ∃ canonicalPath,
          u.site.files.realpath (join root (target.key lib)) = .ok canonicalPath ∧
          target.IsIn lib u.site.files canonicalPath worktrees) X seen w := by
  refine opens_call (fun _ _ _ => trivial) fun v e u hv _ he hafter hu => ?_
  have hworld : v.site.files.Kept u.site.files := ((he.follows trivial).trans hu).files
  obtain ⟨stdout, hanswer⟩ := he.answered
  rw [hanswer] at hafter ⊢
  have hstdout : stdout = v.site.listing repoRoot := by
    change orFault e.gitFailure (.ok ((v.evolve e).site.listing repoRoot)) = _ at hanswer
    rw [World.evolve_none he.evolved] at hanswer
    unfold orFault at hanswer
    split at hanswer
    · cases hanswer
    · exact (Except.ok.inj hanswer).symm
  refine ⟨hafter, fun root hdecisive => ?_⟩
  obtain ⟨canonicalPath, hpath, worktree, hmem, hworktree, howns⟩ :=
    (he.found root hdecisive).2 repoRoot rfl
  exact ⟨canonicalPath, hworld.realpath _ _ hpath, worktree, hstdout ▸ hmem,
    hworld.realpath _ _ hworktree, howns⟩

/-- Reconciling after an intent ends without an exception, and finds the worktree
where it has to. -/
theorem opens_tryReconcilePartialWorktree (hfor : registration.For lib target)
    (hw : w.Intended (target.key lib)) {X : Trace Call Answer → Thrown → World → Prop} :
    Async.Safe (targetRules lib target strict) (Ordinary lib target strict)
      (tryReconcilePartialWorktree lib registry registration)
      (fun seen' reconciled u => After lib target strict seen w seen' u ∧
        (reconciled = none → ¬ Decisive strict seen registration.worktreePath) ∧
        ∀ record, reconciled = some record → target.HasWorkspace lib u record.workspaceId)
      X seen w := by
  obtain ⟨root, hroot⟩ := hfor.path
  refine Async.Safe.bind (X := fun _ _ _ => False) (opens_hasAction _ _)
    (fun seen₁ intended v₁ _ h₁ => ?_) fun _ _ _ _ h _ _ _ => h.elim
  obtain ⟨hafter₁, -, -, hintended, -⟩ := h₁
  rw [hintended (hfor.key ▸ hw)]
  refine Async.Safe.bind (X := fun _ _ _ => False) (opens_tryRealpath _)
    (fun seen₂ canonical v₂ _ h₂ => ?_) fun _ _ _ _ h _ _ _ => h.elim
  obtain ⟨hafter₂, hsome, hnone⟩ := h₂
  cases canonical with
  | none =>
      refine Async.safe_pure fun u hu _ => ⟨(hafter₁.trans hafter₂).later hu, fun _ hdecisive => ?_,
        fun _ h => ?_⟩
      · exact (hnone rfl).2 root hroot (hdecisive.mono hafter₁.trace)
      · cases h
  | some canonicalPath =>
      refine Async.Safe.bind
        (P := fun seen₃ worktrees u => After lib target strict seen₂ v₂ seen₃ u ∧
          ∀ root, Decisive strict seen₂ (join root (target.key lib)) → ∃ canonicalPath,
            u.site.files.realpath (join root (target.key lib)) = .ok canonicalPath ∧
            target.IsIn lib u.site.files canonicalPath worktrees)
        (X := fun _ _ _ => False)
        (Async.Safe.mapError (X := fun _ _ _ => False) (opens_listGitWorktrees _)
          (fun _ _ _ _ h u hu _ => ?_) fun _ _ _ _ h _ _ _ => h.elim)
        (fun seen₃ worktrees v₃ _ h₃ => ?_) fun _ _ _ _ h _ _ _ => h.elim
      · refine ⟨h.1.later hu, fun root hdecisive => ?_⟩
        obtain ⟨canonicalPath, hpath, hin⟩ := h.2 root hdecisive
        exact ⟨canonicalPath, hu.files.realpath _ _ hpath, hin.kept hu.files⟩
      · obtain ⟨hafter₃, hlisted⟩ := h₃
        refine Async.Safe.bind (X := fun _ _ _ => False) (opens_listsWorktree hfor _ _ _)
          (fun seen₄ listed v₄ _ h₄ => ?_) fun _ _ _ _ h _ _ _ => h.elim
        obtain ⟨hafter₄, hfound⟩ := h₄
        have hafter := (hafter₁.trans hafter₂).trans (hafter₃.trans hafter₄)
        have hpath := hsome canonicalPath rfl
        cases listed with
        | false =>
            refine Async.safe_pure fun u hu _ => ⟨hafter.later hu, fun _ hdecisive => ?_,
              fun _ h => ?_⟩
            · have hdecisive' := hdecisive.mono (hafter₁.trans hafter₂).trace
              rw [hroot] at hdecisive'
              obtain ⟨path, hpath', hin⟩ := hlisted root hdecisive'
              have hsame := hafter₃.world.files.realpath _ _ hpath
              rw [hroot, hpath'] at hsame
              cases hfound (Except.ok.inj hsame ▸ hin)
            · cases h
        | true =>
            refine Async.Safe.bind (X := fun _ _ _ => False)
              (opens_registerManagedWorktree hfor (.inr rfl) (hafter.world.intended hw)
                ((hafter₃.trans hafter₄).world.files.realpath _ _ hpath))
              (fun seen₅ record v₅ _ h₅ => ?_) fun _ _ _ _ h _ _ _ => h.elim
            refine Async.safe_pure fun u hu _ => ⟨(hafter.trans h₅.1).later hu, fun h => ?_,
              fun record' h => ?_⟩
            · cases h
            · obtain rfl := Option.some.inj h
              exact h₅.2.later hu

/-! ## Waiting and cleaning up -/

variable (lib) in
/-- How an open may be rejected: something has to be cleaned up, and the journal
says so. -/
def Target.NeedsCleanup (target : Target) (strict : Prop) (x : Thrown) (w : World) : Prop :=
  ¬ strict ∧ (∃ path message, x = .registry ⟨.worktreeCleanupRequired, path, message⟩) ∧
    w.db.hasAction (target.key lib) .cleanupIntent = true

theorem Target.NeedsCleanup.later {x : Thrown} {v : World}
    (h : target.NeedsCleanup lib strict x v) (hw : Follows lib target strict v w) :
    target.NeedsCleanup lib strict x w :=
  ⟨h.1, h.2.1, hasAction_later hw.journal h.2.2⟩

theorem looks_hasAction (seen : Trace Call Answer) (key : JsString) (found : Bool) :
    looks (seen ++ [⟨.sql (.selectEvent key .createFailed), .ok found⟩]) = looks seen + 1 := by
  rw [looks, List.countP_append]
  rfl

/-- Waiting ends with the workspace of the key, or without one if the opens are
not strict. -/
theorem opens_waitForInflightWorktree (hfor : registration.For lib target)
    {X : Trace Call Answer → Thrown → World → Prop} :
    ∀ (attempts : Nat) (seen : Trace Call Answer) (w : World), w.Intended (target.key lib) →
    (strict → w.db.Undamaged (target.key lib)) →
    WORKTREE_INFLIGHT_RECONCILE_ATTEMPTS < looks seen + attempts →
    Async.Safe (targetRules lib target strict) (Ordinary lib target strict)
      (waitForInflightWorktree lib registry registration attempts)
      (fun seen' reconciled u => After lib target strict seen w seen' u ∧
        (reconciled = none → ¬ strict) ∧
        ∀ record, reconciled = some record → target.HasWorkspace lib u record.workspaceId)
      X seen w
  | 0, seen, w, hw, _, hlooks => by
      refine (opens_tryReconcilePartialWorktree hfor hw).mono (fun _ _ _ _ h => ?_)
        fun _ _ _ _ h => h
      exact ⟨h.1, fun hnone hstrict => h.2.1 hnone (.inr (.inr ⟨hstrict, hlooks⟩)), h.2.2⟩
  | attempts + 1, seen, w, hw, hundamaged, hlooks => by
      refine Async.Safe.bind (X := fun _ _ _ => False)
        (opens_tryReconcilePartialWorktree hfor hw) (fun seen₁ reconciled v₁ _ h₁ => ?_)
        fun _ _ _ _ h _ _ _ => h.elim
      obtain ⟨hafter₁, -, hsome⟩ := h₁
      cases reconciled with
      | some record =>
          refine Async.safe_pure fun u hu _ => ⟨hafter₁.later hu, fun h => ?_, fun record' h => ?_⟩
          · cases h
          · obtain rfl := Option.some.inj h
            exact (hsome record rfl).later hu
      | none =>
          refine Async.Safe.bind (X := fun _ _ _ => False) (opens_hasAction _ _)
            (fun seen₂ failed v₂ _ h₂ => ?_) fun _ _ _ _ h _ _ _ => h.elim
          obtain ⟨hafter₂, hseen₂, -, -, hfailed⟩ := h₂
          cases failed with
          | true =>
              refine Async.safe_pure fun u hu _ => ⟨(hafter₁.trans hafter₂).later hu,
                fun _ hstrict => ?_, fun _ h => ?_⟩
              · cases hfailed hstrict (hafter₁.world.undamaged hstrict (hundamaged hstrict)) hfor.key
                  (.inl rfl)
              · cases h
          | false =>
              refine Async.Safe.bind (X := fun _ _ _ => False) (opens_hasAction _ _)
                (fun seen₃ cleanup v₃ _ h₃ => ?_) fun _ _ _ _ h _ _ _ => h.elim
              obtain ⟨hafter₃, -, -, -, hcleanup⟩ := h₃
              have hafter := (hafter₁.trans hafter₂).trans hafter₃
              cases cleanup with
              | true =>
                  refine Async.safe_pure fun u hu _ => ⟨hafter.later hu,
                    fun _ hstrict => ?_, fun _ h => ?_⟩
                  · cases hcleanup hstrict
                      ((hafter₁.trans hafter₂).world.undamaged hstrict (hundamaged hstrict))
                      hfor.key (.inr rfl)
                  · cases h
              | false =>
                  have hlooks₃ : WORKTREE_INFLIGHT_RECONCILE_ATTEMPTS
                      < looks seen₃ + attempts := by
                    have h₁ := looks_mono hafter₁.trace
                    have h₃ := looks_mono hafter₃.trace
                    rw [hseen₂, looks_hasAction] at h₃
                    omega
                  have hrest : ∀ seen₄ v₄, After lib target strict seen₃ v₃ seen₄ v₄ →
                      Async.Safe (targetRules lib target strict) (Ordinary lib target strict)
                        (waitForInflightWorktree lib registry registration attempts)
                        (fun seen' reconciled u => After lib target strict seen w seen' u ∧
                          (reconciled = none → ¬ strict) ∧ ∀ record, reconciled = some record →
                            target.HasWorkspace lib u record.workspaceId) X seen₄ v₄ := by
                    intro seen₄ v₄ hafter₄
                    refine (opens_waitForInflightWorktree hfor attempts seen₄ v₄
                      ((hafter.trans hafter₄).world.intended hw)
                      (fun hstrict => (hafter.trans hafter₄).world.undamaged hstrict
                        (hundamaged hstrict))
                      (hlooks₃.trans_le (Nat.add_le_add_right (looks_mono hafter₄.trace) _))).mono
                      (fun _ _ _ _ h => ⟨(hafter.trans hafter₄).trans h.1, h.2⟩) fun _ _ _ _ h => h
                  rw [if_neg Bool.false_ne_true]
                  split
                  · exact Async.Safe.bind (X := fun _ _ _ => False) opens_delay
                      (fun seen₄ _ v₄ _ h₄ => hrest seen₄ v₄ h₄) fun _ _ _ _ h _ _ _ => h.elim
                  · exact hrest seen₃ v₃ ⟨List.prefix_rfl, .refl _ _ _⟩

theorem opens_requireBranchCleanup (hfor : registration.For lib target) (hstrict : ¬ strict)
    (commit : JsString) {P : Trace Call Answer → WorkspaceRecord → World → Prop} :
    Async.Safe (targetRules lib target strict) (Ordinary lib target strict)
      (requireBranchCleanup registration commit) P
      (fun _ x u => target.NeedsCleanup lib strict x u) seen w := by
  have hthrow : ∀ (seen' : Trace Call Answer) (v : World),
      v.db.hasAction (target.key lib) .cleanupIntent = true →
      Async.Safe (targetRules lib target strict) (Ordinary lib target strict)
        (fail .worktreeCleanupRequired registration.repoRoot
          (js "managed worktree branch requires explicit cleanup or recovery: " ++
            registration.branch) : Async WorkspaceRecord) P
        (fun _ x u => target.NeedsCleanup lib strict x u) seen' v := by
    intro seen' v hv
    exact Async.safe_throw fun u hu _ =>
      ⟨hstrict, ⟨_, _, rfl⟩, hasAction_later hu.journal hv⟩
  refine Async.Safe.bind (X := fun _ _ _ => False) (opens_hasAction _ _)
    (fun seen₁ recorded v₁ _ h₁ => ?_) fun _ _ _ _ h _ _ _ => h.elim
  obtain ⟨hafter₁, -, hrecorded, -, -⟩ := h₁
  cases recorded with
  | true => exact hthrow seen₁ v₁ (hfor.key ▸ hrecorded rfl)
  | false =>
      exact Async.Safe.bind (X := fun _ _ _ => False)
        (opens_append fun hs => absurd hs hstrict)
        (fun seen₂ _ v₂ _ h₂ => hthrow seen₂ v₂ (hfor.key ▸ h₂.2)) fun _ _ _ _ h _ _ _ => h.elim

theorem opens_canStillBeInFlight (hfor : registration.For lib target) {commit : JsString}
    (hcommit : commit = target.commit) (hundamaged : strict → w.db.Undamaged (target.key lib))
    {X : Trace Call Answer → Thrown → World → Prop} :
    Async.Safe (targetRules lib target strict) (Ordinary lib target strict)
      (canStillBeInFlight registration commit)
      (fun seen' inFlight u => After lib target strict seen w seen' u ∧
        (inFlight = true → looks seen < looks seen') ∧ (strict → inFlight = true)) X seen w := by
  unfold canStillBeInFlight
  rw [if_neg (not_not.mpr (hcommit.trans hfor.commit.symm))]
  refine Async.Safe.bind (X := fun _ _ _ => False) (opens_hasAction _ _)
    (fun seen₁ failed v₁ _ h₁ => ?_) fun _ _ _ _ h _ _ _ => h.elim
  obtain ⟨hafter₁, hseen₁, -, -, hfailed⟩ := h₁
  have hlooks : looks seen < looks seen₁ := by
    rw [hseen₁, looks_hasAction]
    exact Nat.lt_succ_self _
  cases failed with
  | true =>
      refine Async.safe_pure fun u hu _ => ⟨hafter₁.later hu, fun _ => hlooks, fun hstrict => ?_⟩
      cases hfailed hstrict (hundamaged hstrict) hfor.key (.inl rfl)
  | false =>
      refine Async.Safe.bind (X := fun _ _ _ => False) (opens_hasAction _ _)
        (fun seen₂ cleanup v₂ _ h₂ => ?_) fun _ _ _ _ h _ _ _ => h.elim
      obtain ⟨hafter₂, -, -, -, hcleanup⟩ := h₂
      refine Async.safe_pure fun u hu _ => ⟨(hafter₁.trans hafter₂).later hu,
        fun _ => hlooks.trans_le (looks_mono hafter₂.trace), fun hstrict => ?_⟩
      rw [hcleanup hstrict (hafter₁.world.undamaged hstrict (hundamaged hstrict)) hfor.key
        (.inr rfl)]
      rfl

/-- The branch is there: its worktree is waited for, or asked to be cleaned up. -/
theorem opens_openOccupiedBranch (hfor : registration.For lib target) {commit : JsString}
    (hcommit : commit = target.commit) (hw : w.Intended (target.key lib))
    (hundamaged : strict → w.db.Undamaged (target.key lib)) :
    Async.Safe (targetRules lib target strict) (Ordinary lib target strict)
      (openOccupiedBranch lib registry registration commit)
      (fun seen' record u => After lib target strict seen w seen' u ∧
        target.HasWorkspace lib u record.workspaceId)
      (fun _ x u => target.NeedsCleanup lib strict x u) seen w := by
  refine Async.Safe.bind (X := fun _ _ _ => False) (opens_hasAction _ _)
    (fun seen₁ intended v₁ _ h₁ => ?_) fun _ _ _ _ h _ _ _ => h.elim
  obtain ⟨hafter₁, -, -, hintended, -⟩ := h₁
  rw [hintended (hfor.key ▸ hw)]
  refine Async.Safe.bind (X := fun _ _ _ => False) (opens_canStillBeInFlight hfor hcommit
      fun hstrict => hafter₁.world.undamaged hstrict (hundamaged hstrict))
    (fun seen₂ inFlight v₂ _ h₂ => ?_) fun _ _ _ _ h _ _ _ => h.elim
  obtain ⟨hafter₂, hlooks, hinFlight⟩ := h₂
  have hafter := hafter₁.trans hafter₂
  cases inFlight with
  | false =>
      refine opens_requireBranchCleanup hfor (fun hstrict => ?_) commit
      cases hinFlight hstrict
  | true =>
      refine Async.Safe.bind (X := fun _ _ _ => False)
        (opens_waitForInflightWorktree hfor WORKTREE_INFLIGHT_RECONCILE_ATTEMPTS seen₂ v₂
          (hafter.world.intended hw)
          (fun hstrict => hafter.world.undamaged hstrict (hundamaged hstrict))
          (Nat.lt_add_of_pos_left (Nat.zero_lt_of_lt (hlooks rfl))))
        (fun seen₃ reconciled v₃ _ h₃ => ?_) fun _ _ _ _ h _ _ _ => h.elim
      obtain ⟨hafter₃, hnone, hsome⟩ := h₃
      cases reconciled with
      | none => exact opens_requireBranchCleanup hfor (hnone rfl) commit
      | some record =>
          exact Async.safe_pure fun u hu _ => ⟨(hafter.trans hafter₃).later hu,
            (hsome record rfl).later hu⟩

/-! ## The branch -/

theorem isTrimmed_eq_false {u : UInt16} (h : isHexUnit u = true) : isTrimmed u = false := by
  have hdigits : (ch '0').toNat = 48 ∧ (ch '9').toNat = 57 := by decide
  have hlower : (ch 'a').toNat = 97 ∧ (ch 'f').toNat = 102 := by decide
  have hupper : (ch 'A').toNat = 65 ∧ (ch 'F').toNat = 70 := by decide
  simp only [isHexUnit, Bool.or_eq_true, Bool.and_eq_true, decide_eq_true_eq,
    UInt16.le_iff_toNat_le, hdigits, hlower, hupper] at h
  simp only [isTrimmed, Bool.or_eq_false_iff, Bool.and_eq_false_iff, decide_eq_false_iff_not,
    beq_eq_false_iff_ne]
  omega

theorem dropWhile_isTrimmed {s : JsString} (h : s.all isHexUnit = true) :
    s.dropWhile isTrimmed = s := by
  cases s with
  | nil => rfl
  | cons u s =>
      rw [List.all_cons, Bool.and_eq_true] at h
      rw [List.dropWhile_cons, isTrimmed_eq_false h.1]
      rfl

/-- The commit of a branch is git's answer without its line end. -/
theorem trim_commit {commit : JsString} (h : isCommitId commit = true) :
    trim (commit ++ [ch '\n']) = commit := by
  obtain ⟨-, hhex⟩ := Bool.and_eq_true_iff.mp h
  have hne : commit ≠ [] := by
    rintro rfl
    exact absurd h (by decide)
  have hreverse : commit.reverse.all isHexUnit = true := by
    rw [List.all_reverse]
    exact hhex
  have hdrop : (commit ++ [ch '\n']).dropWhile isTrimmed = commit ++ [ch '\n'] := by
    obtain ⟨u, rest, rfl⟩ := List.exists_cons_of_ne_nil hne
    rw [List.all_cons, Bool.and_eq_true] at hhex
    rw [List.cons_append, List.dropWhile_cons, isTrimmed_eq_false hhex.1]
    rfl
  have hend : isTrimmed (ch '\n') = true := by decide
  rw [trim, hdrop, List.reverse_append, List.reverse_singleton, List.singleton_append,
    List.dropWhile_cons, hend, if_pos rfl, dropWhile_isTrimmed hreverse, List.reverse_reverse]

/-- What git prints is the commit of a branch that is there. -/
theorem branchCommit_ok {e : Choice} (he : e.evolved = none) {repoRoot branch stdout : JsString}
    (h : (handler e (.branchCommit repoRoot branch) w).1 = .ok stdout) :
    ∃ commit, w.site.branch? repoRoot branch = some commit ∧ stdout = commit ++ [ch '\n'] := by
  unfold handler World.answer orFault at h
  rw [World.evolve_none he] at h
  dsimp only at h
  split at h
  · cases h
  · cases hbranch : w.site.branch? repoRoot branch with
    | none =>
        rw [hbranch] at h
        cases h
    | some commit =>
        rw [hbranch] at h
        exact ⟨commit, rfl, (Except.ok.inj h).symm⟩

/-- A branch of the target that is there has its commit, and was intended. -/
theorem opens_readLocalBranchCommit (hfor : registration.For lib target)
    {X : Trace Call Answer → Thrown → World → Prop} :
    Async.Safe (targetRules lib target strict) (Ordinary lib target strict)
      (readLocalBranchCommit registration.repoRoot registration.branch)
      (fun seen' found u => After lib target strict seen w seen' u ∧
        ∀ commit, found = some commit →
          commit = target.commit ∧ u.Intended (target.key lib) ∧
            (strict → u.db.Undamaged (target.key lib))) X seen w := by
  refine opens_call (fun _ _ _ => trivial) fun v e u hv hinv he hafter hu => ?_
  cases hanswer : (handler e (.branchCommit registration.repoRoot registration.branch) v).1 with
  | error failure =>
      rw [hanswer] at hafter
      have hcode := he.answered failure hanswer
      simp only [hcode, if_true]
      refine ⟨hafter, fun commit h => ?_⟩
      cases h
  | ok stdout =>
      rw [hanswer] at hafter
      obtain ⟨commit, hbranch, rfl⟩ := branchCommit_ok he.evolved hanswer
      rw [Site.branch?, hinv.repository, hfor.repository, hfor.branch] at hbranch
      obtain ⟨rfl, hintended⟩ := hinv.branch commit hbranch
      have hcommitId : isCommitId target.commit = true := hfor.commit ▸ hfor.commitId
      simp only [trim_commit hcommitId, hcommitId, Bool.not_true, Bool.false_eq_true, if_false]
      refine ⟨hafter, fun commit h => ⟨?_, ?_, fun hstrict => ?_⟩⟩
      · rw [← Option.some.inj h, ← hfor.commit]
        exact hfor.lower
      · exact ((he.follows trivial).trans hu).intended hintended
      · refine ((he.follows trivial).trans hu).undamaged hstrict
          (he.undamaged hstrict registration.repoRoot (by rw [hfor.branch]) ?_)
        rw [hbranch]
        exact Option.some_ne_none _

theorem opens_openBranch (hfor : registration.For lib target) :
    Async.Safe (targetRules lib target strict) (Ordinary lib target strict)
      (openBranch lib registry registration)
      (fun seen' opened u => After lib target strict seen w seen' u ∧
        ∀ record, opened = some record → target.HasWorkspace lib u record.workspaceId)
      (fun _ x u => target.NeedsCleanup lib strict x u) seen w := by
  refine Async.Safe.bind
    (P := fun seen' found u => After lib target strict seen w seen' u ∧
      ∀ commit, found = some commit → commit = target.commit ∧ u.Intended (target.key lib) ∧
        (strict → u.db.Undamaged (target.key lib)))
    (X := fun _ _ _ => False)
    (Async.Safe.mapError (X := fun _ _ _ => False) (opens_readLocalBranchCommit hfor)
      (fun _ _ _ _ h u hu _ => ⟨h.1.later hu, fun commit hsome =>
        ⟨(h.2 commit hsome).1, hu.intended (h.2 commit hsome).2.1, fun hstrict =>
          hu.undamaged hstrict ((h.2 commit hsome).2.2 hstrict)⟩⟩)
      fun _ _ _ _ h _ _ _ => h.elim)
    (fun seen₁ found v₁ _ h₁ => ?_) fun _ _ _ _ h _ _ _ => h.elim
  obtain ⟨hafter₁, hfound⟩ := h₁
  cases found with
  | none =>
      refine Async.safe_pure fun u hu _ => ⟨hafter₁.later hu, fun _ h => ?_⟩
      cases h
  | some commit =>
      obtain ⟨hcommit, hintended, hundamaged⟩ := hfound commit rfl
      refine (opens_openOccupiedBranch hfor hcommit hintended hundamaged).bind
        (fun seen₂ record v₂ _ h₂ => ?_) fun _ _ _ _ h _ hu _ => h.later hu
      refine Async.safe_pure fun u hu _ => ⟨(hafter₁.trans h₂.1).later hu, fun record' h => ?_⟩
      obtain rfl := Option.some.inj h
      exact h₂.2.later hu

/-! ## The path -/

/-- What is at the path was intended, and has to be the worktree. -/
theorem opens_lstat (hfor : registration.For lib target) :
    Async.Safe (targetRules lib target strict) (Ordinary lib target strict)
      (lstat registration.worktreePath)
      (fun seen' _ u => After lib target strict seen w seen' u ∧ u.Intended (target.key lib) ∧
        Decisive strict seen' registration.worktreePath)
      (fun seen' x u => After lib target strict seen w seen' u ∧
        ∃ errno : Errno, x = .errno errno ∧ errno.code = js "ENOENT") seen w := by
  obtain ⟨root, hroot⟩ := hfor.path
  refine opens_call (fun _ _ _ => trivial) fun v e u hv hinv he hafter hu => ?_
  have hlstat : (handler e (.lstat registration.worktreePath) v).1
      = (v.site.files.lstat registration.worktreePath).map fun _ => ⟨⟩ := by
    change ((v.evolve e).site.files.lstat registration.worktreePath).map _ = _
    rw [World.evolve_none he.evolved]
  cases hanswer : (handler e (.lstat registration.worktreePath) v).1 with
  | error errno =>
      rw [hanswer] at hafter
      exact ⟨hafter, errno, rfl, he.answered errno hanswer⟩
  | ok a =>
      rw [hanswer] at hafter
      refine ⟨hafter, ((he.follows trivial).trans hu).intended ?_,
        .inl (List.mem_append_right _ (List.mem_singleton_self _))⟩
      rw [hlstat] at hanswer
      cases hnode : v.site.files.lstat registration.worktreePath with
      | error errno =>
          rw [hnode] at hanswer
          cases hanswer
      | ok node => exact hinv.path root node (hroot ▸ hnode)

/-- Where something is at the path, the worktree is found there. -/
theorem opens_openPath (hfor : registration.For lib target)
    {X : Trace Call Answer → Thrown → World → Prop} :
    Async.Safe (targetRules lib target strict) (Ordinary lib target strict)
      (openPath lib registry registration)
      (fun seen' opened u => After lib target strict seen w seen' u ∧
        ∀ record, opened = some record → target.HasWorkspace lib u record.workspaceId) X
      seen w := by
  refine Async.Safe.tryCatch
    (P := fun seen' opened u => After lib target strict seen w seen' u ∧
      ∀ record, opened = some record → target.HasWorkspace lib u record.workspaceId)
    (X := fun seen' x u => After lib target strict seen w seen' u ∧
      ∃ errno : Errno, x = .errno errno ∧ errno.code = js "ENOENT")
    ?_ (fun _ _ _ _ h u hu _ => ⟨h.1.later hu, fun record hrecord =>
      (h.2 record hrecord).later hu⟩) fun seen' x u _ h => ?_
  · refine Async.Safe.bind
      (P := fun seen' _ u => After lib target strict seen w seen' u ∧ u.Intended (target.key lib) ∧
        Decisive strict seen' registration.worktreePath)
      (X := fun seen' x u => After lib target strict seen w seen' u ∧
        ∃ errno : Errno, x = .errno errno ∧ errno.code = js "ENOENT")
      (opens_lstat hfor) (fun seen₁ _ v₁ _ h₁ => ?_)
      fun _ _ _ _ h u hu _ => ⟨h.1.later hu, h.2⟩
    obtain ⟨hafter₁, hintended, hdecisive⟩ := h₁
    refine Async.Safe.bind (X := fun _ _ _ => False)
      (opens_tryReconcilePartialWorktree hfor hintended) (fun seen₂ reconciled v₂ _ h₂ => ?_)
      fun _ _ _ _ h _ _ _ => h.elim
    obtain ⟨hafter₂, hnone, hsome⟩ := h₂
    cases reconciled with
    | none => exact absurd hdecisive (hnone rfl)
    | some record =>
        refine Async.safe_pure fun u hu _ => ⟨(hafter₁.trans hafter₂).later hu, fun record' h => ?_⟩
        obtain rfl := Option.some.inj h
        exact (hsome record rfl).later hu
  · obtain ⟨hafter, errno, rfl, hcode⟩ := h
    have hnoent : hasErrnoCode (.errno errno) "ENOENT" = true := by
      simp [hasErrnoCode, hcode]
    simp only [hnoent, Bool.not_true, Bool.false_eq_true, if_false]
    refine Async.safe_pure fun v hv _ => ⟨hafter.later hv, fun _ h => ?_⟩
    cases h

/-! ## Creating -/

theorem fits_locked (hfor : registration.For lib target) (hw : w.Intended (target.key lib))
    (stage : AddStage) : ∀ v, Follows lib target strict w v → Orderly lib target strict v →
      Fits lib target strict v (.worktreeAdd stage registration.locked) :=
  fun _ hv _ => ⟨hfor.repository, hfor.commit, hv.intended hw⟩

/-- The directory is at its path once git has made it. -/
theorem realpath_directory {e : Choice} {worktree : LockedWorktree} {canonical : JsString}
    (h : (handler e (.worktreeAdd .directory worktree) w).1 = .ok ⟨⟩)
    (hmade : e.made.realpath worktree.worktreePath = .ok canonical) :
    (handler e (.worktreeAdd .directory worktree) w).2.site.files.realpath worktree.worktreePath
      = .ok canonical := by
  have hsite : (handler e (.worktreeAdd .directory worktree) w).2.site
      = ((w.evolve e).site.worktreeAdd e.gitFailure e.made worktree .directory).2 := rfl
  change ((w.evolve e).site.worktreeAdd e.gitFailure e.made worktree .directory).1 = _ at h
  rw [hsite]
  cases hfault : e.gitFailure with
  | some failure =>
      rw [hfault] at h
      cases h
  | none => exact hmade

/-- A step of git, of which only the first can be refused. -/
theorem opens_worktreeAdd (hfor : registration.For lib target) (hw : w.Intended (target.key lib))
    (stage : AddStage) :
    Async.Safe (targetRules lib target strict) (Ordinary lib target strict)
      (worktreeAdd stage registration.locked)
      (fun seen' _ u => After lib target strict seen w seen' u ∧ (stage = .directory →
        ∃ canonical, u.site.files.realpath registration.worktreePath = .ok canonical))
      (fun seen' _ u => After lib target strict seen w seen' u ∧
        Decisive strict seen' registration.worktreePath) seen w := by
  refine opens_call (fits_locked hfor hw stage) fun v e u hv hinv he hafter hu => ?_
  cases hanswer : (handler e (.worktreeAdd stage registration.locked) v).1 with
  | error failure =>
      rw [hanswer] at hafter
      have hstage : stage = .branch := by
        by_contra hne
        have hok : (handler e (.worktreeAdd stage registration.locked) v).1 = .ok ⟨⟩ :=
          he.answered hne
        rw [hok] at hanswer
        cases hanswer
      subst hstage
      exact ⟨hafter, .inr (.inl ⟨registration.locked, failure, rfl,
        List.mem_append_right _ (List.mem_singleton_self _)⟩)⟩
  | ok a =>
      rw [hanswer] at hafter
      refine ⟨hafter, fun hstage => ?_⟩
      subst hstage
      obtain ⟨canonical, hmade⟩ := he.directory registration.locked rfl
      exact ⟨canonical, hu.files.realpath _ _ (realpath_directory hanswer hmade)⟩

/-- git makes the worktree, or has refused its branch. -/
theorem opens_createLockedWorktree (hfor : registration.For lib target)
    (hw : w.Intended (target.key lib)) :
    Async.Safe (targetRules lib target strict) (Ordinary lib target strict)
      (createLockedWorktree registration.locked)
      (fun seen' _ u => After lib target strict seen w seen' u ∧
        ∃ canonical, u.site.files.realpath registration.worktreePath = .ok canonical)
      (fun seen' _ u => After lib target strict seen w seen' u ∧
        Decisive strict seen' registration.worktreePath) seen w := by
  refine (opens_worktreeAdd hfor hw .branch).bind (fun seen₁ _ v₁ _ h₁ => ?_)
    fun _ _ _ _ h u hu _ => ⟨h.1.later hu, h.2⟩
  refine (opens_worktreeAdd hfor (h₁.1.world.intended hw) .directory).bind
    (fun seen₂ _ v₂ _ h₂ => ?_)
    fun _ _ _ _ h u hu _ => ⟨(h₁.1.trans h.1).later hu, h.2⟩
  have hafter := h₁.1.trans h₂.1
  refine (opens_worktreeAdd hfor (hafter.world.intended hw) .entry).mono
    (fun seen₃ _ v₃ _ h₃ => ?_) fun _ _ _ _ h => ⟨hafter.trans h.1, h.2⟩
  obtain ⟨canonical, hpath⟩ := h₂.2 rfl
  exact ⟨hafter.trans h₃.1, canonical, h₃.1.world.files.realpath _ _ hpath⟩

/-- A creation ends with the workspace of the key, whoever has created it. -/
theorem opens_createWorktree (hfor : registration.For lib target)
    {X : Trace Call Answer → Thrown → World → Prop} :
    Async.Safe (targetRules lib target strict) (Ordinary lib target strict)
      (createWorktree lib registry registration)
      (fun seen' record u => After lib target strict seen w seen' u ∧
        target.HasWorkspace lib u record.workspaceId) X seen w := by
  refine Async.Safe.bind (X := fun _ _ _ => False) (opens_append fun _ => rfl)
    (fun seen₁ _ v₁ _ h₁ => ?_) fun _ _ _ _ h _ _ _ => h.elim
  obtain ⟨hafter₁, hintended⟩ := h₁
  have hw : v₁.Intended (target.key lib) := hfor.key ▸ hintended
  refine Async.Safe.bind
    (P := fun seen' reconciled u => After lib target strict seen₁ v₁ seen' u ∧
      (reconciled = none →
        ∃ canonical, u.site.files.realpath registration.worktreePath = .ok canonical) ∧
      ∀ record, reconciled = some record → target.HasWorkspace lib u record.workspaceId)
    (X := fun _ _ _ => False)
    (Async.Safe.tryCatch
      (P := fun seen' reconciled u => After lib target strict seen₁ v₁ seen' u ∧ reconciled = none ∧
        ∃ canonical, u.site.files.realpath registration.worktreePath = .ok canonical)
      (X := fun seen' _ u => After lib target strict seen₁ v₁ seen' u ∧
        Decisive strict seen' registration.worktreePath)
      ((opens_createLockedWorktree hfor hw).bind
        (fun _ _ _ _ h => Async.safe_pure fun u hu _ => ?_)
        fun _ _ _ _ h u hu _ => ⟨h.1.later hu, h.2⟩)
      (fun _ _ _ _ h u hu _ => ?_) fun seen₂ x v₂ _ h₂ => ?_)
    (fun seen₂ reconciled v₂ _ h₂ => ?_) fun _ _ _ _ h _ _ _ => h.elim
  · obtain ⟨hafter, canonical, hpath⟩ := h
    exact ⟨hafter.later hu, rfl, canonical, hu.files.realpath _ _ hpath⟩
  · obtain ⟨hafter, rfl, canonical, hpath⟩ := h
    refine ⟨hafter.later hu, fun _ => ⟨canonical, hu.files.realpath _ _ hpath⟩, fun _ h => ?_⟩
    cases h
  · obtain ⟨hafter₂, hdecisive⟩ := h₂
    refine Async.Safe.bind (X := fun _ _ _ => False)
      (opens_tryReconcilePartialWorktree hfor (hafter₂.world.intended hw))
      (fun seen₃ reconciled v₃ _ h₃ => ?_) fun _ _ _ _ h _ _ _ => h.elim
    obtain ⟨hafter₃, hnone, hsome⟩ := h₃
    cases reconciled with
    | none => exact absurd hdecisive (hnone rfl)
    | some record =>
        refine Async.safe_pure fun u hu _ => ⟨(hafter₂.trans hafter₃).later hu, fun h => ?_,
          fun record' h => ?_⟩
        · cases h
        · obtain rfl := Option.some.inj h
          exact (hsome record rfl).later hu
  · obtain ⟨hafter₂, hnone, hsome⟩ := h₂
    cases reconciled with
    | some record =>
        exact Async.safe_pure fun u hu _ => ⟨(hafter₁.trans hafter₂).later hu,
          (hsome record rfl).later hu⟩
    | none =>
        obtain ⟨canonical, hpath⟩ := hnone rfl
        refine (opens_registerManagedWorktree hfor (.inl rfl) (hafter₂.world.intended hw)
          hpath).mono (fun _ _ _ _ h => ?_) fun _ _ _ _ h => h
        exact ⟨(hafter₁.trans hafter₂).trans h.1, h.2⟩

end

end Benchhand.Workspace
