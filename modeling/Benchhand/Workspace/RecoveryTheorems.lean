/-
Benchhand.Workspace.RecoveryTheorems — opens of one worktree, from start to end.

`opens_open` is an open of a target on its own: once git has told its commit, it
is resolved with the workspace that the key is registered for, or it asks for a
cleanup. `opens_coalesce` is about opens that run at once, `recovers_leftovers`
about opens of which each may be killed before the next is started.
-/
import Benchhand.Posix.PathTheorems
import Benchhand.Workspace.WorktreeTheorems

namespace Benchhand.Workspace

open Text Js Posix Contracts Store Process

variable {α β : Type} {lib : Libraries} {registry : WorkspaceRegistry}

/-! ## Names and commits -/

theorem dirname_ne_nil (p : JsString) : dirname p ≠ [] := by
  unfold dirname
  split
  · split <;> exact List.cons_ne_nil _ _
  · rename_i before _
    split
    · exact List.cons_ne_nil _ _
    · rename_i hbefore
      split
      · exact List.cons_ne_nil _ _
      · exact fun h => hbefore (List.reverse_eq_nil_iff.mp h)

theorem ne_nil_of_mem_ancestorsFrom {root : JsString} :
    ∀ {fuel : Nat} {current path : JsString}, current ≠ [] →
      path ∈ ancestorsFrom root fuel current → path ≠ []
  | 0, _, _, _, h => by cases h
  | fuel + 1, current, path, hcurrent, h => by
      rw [ancestorsFrom] at h
      obtain rfl | h := List.mem_cons.mp h
      · exact hcurrent
      · split at h
        · cases h
        · exact ne_nil_of_mem_ancestorsFrom (dirname_ne_nil current) h

theorem toLowerAscii_idem (s : JsString) : toLowerAscii (toLowerAscii s) = toLowerAscii s := by
  unfold toLowerAscii
  rw [List.map_map]
  refine List.map_congr_left fun u _ => ?_
  have hletters : (ch 'A').toNat = 65 ∧ (ch 'Z').toNat = 90 := by decide
  simp only [Function.comp_apply, UInt16.le_iff_toNat_le, hletters]
  split
  · rename_i hupper
    have hcase : (32 : UInt16).toNat = 32 := rfl
    refine if_neg fun h => ?_
    rw [UInt16.toNat_add] at h
    omega
  · rfl

theorem isCommitId_toLowerAscii {s : JsString} (h : isCommitId s = true) :
    isCommitId (toLowerAscii s) = true := by
  unfold isCommitId toLowerAscii at *
  rw [List.length_map, List.all_map]
  simp only [Bool.and_eq_true, List.all_eq_true] at h ⊢
  refine ⟨h.1, fun u hu => ?_⟩
  have hhex := h.2 u hu
  have hdigits : (ch '0').toNat = 48 ∧ (ch '9').toNat = 57 := by decide
  have hlower : (ch 'a').toNat = 97 ∧ (ch 'f').toNat = 102 := by decide
  have hupper : (ch 'A').toNat = 65 ∧ (ch 'F').toNat = 70 ∧ (ch 'Z').toNat = 90 := by decide
  simp only [Function.comp_apply, isHexUnit, Bool.or_eq_true, Bool.and_eq_true, decide_eq_true_eq,
    UInt16.le_iff_toNat_le, hdigits, hlower, hupper] at hhex ⊢
  split
  · have hcase : (32 : UInt16).toNat = 32 := rfl
    rw [UInt16.toNat_add]
    omega
  · exact hhex

/-! ## A managed row that is there -/

theorem WorkspaceRow.Readable.id_ne {row : WorkspaceRow} {id : JsString}
    (h : row.Readable lib id) : id ≠ [] := by
  rintro rfl
  obtain ⟨hpos, -⟩ := WorkspaceRecord.check_iff.mp h
  exact absurd (hpos.trans (lib.lengths.le [])) (by decide)

/-- A managed row that was given up is not active. -/
theorem updateManaged_status {db : Database} {key timestamp : JsString} {m : ManagedWorktreeRow}
    (h : (db.updateManaged key timestamp).1.managed.find? key = some m) :
    m.status = .cleanupRequired := by
  unfold Database.updateManaged at h
  rw [Table.find?_updateKey, if_pos rfl] at h
  obtain ⟨old, -, rfl⟩ := Option.map_eq_some_iff.mp h
  split
  · rfl
  · rename_i hactive
    cases hstatus : old.status with
    | active => exact absurd (decide_eq_true hstatus) hactive
    | cleanupRequired => rfl

section
variable {target : Target} {strict : Prop} {seen : Trace Call Answer} {w : World}
  {registration : ManagedWorktreeRegistration}

/-- The managed row of the key is the one that was found, or none was there. -/
theorem opens_selectManaged {X : Trace Call Answer → Thrown → World → Prop} :
    Async.Safe (targetRules lib target strict) (Ordinary lib target strict)
      (sql (.selectManaged (target.key lib)))
      (fun seen' (existing : Option ManagedWorktreeRow) u => After lib target strict seen w seen' u ∧
        ∀ m, existing = some m → target.HasWorkspace lib u m.workspaceId ∧
          (m.status = .cleanupRequired →
            ¬ strict ∧ u.db.hasAction (target.key lib) .cleanupIntent = true)) X seen w := by
  refine opens_sql (fun _ _ _ => trivial) fun v existing u _ hinv _ hrun hu hafter => ?_
  have hexisting : v.db.managed.find? (target.key lib) = existing := Except.ok.inj hrun
  refine ⟨hafter, fun m hm => ?_⟩
  rw [hm] at hexisting
  refine ⟨Target.HasWorkspace.later ⟨m, hexisting, rfl⟩ hu, fun hstatus => ⟨fun hstrict => ?_, ?_⟩⟩
  · obtain ⟨row, -, -, hactive⟩ := hinv.held m hexisting
    rw [(hactive hstrict).1] at hstatus
    cases hstatus
  · obtain ⟨event, hmem, hkey, haction⟩ := hinv.consistent.cleanup _ m hexisting hstatus
    exact hasAction_later hu.journal (hasAction_iff.mpr ⟨event, hmem, hkey, haction⟩)

theorem opens_cleanupRequired {m : ManagedWorktreeRow} (hstrict : ¬ strict)
    (hw : w.db.hasAction (target.key lib) .cleanupIntent = true)
    {P : Trace Call Answer → α → World → Prop} :
    Async.Safe (targetRules lib target strict) (Ordinary lib target strict)
      (cleanupRequired m : Async α) P (fun _ x u => target.NeedsCleanup lib strict x u) seen w :=
  Async.safe_throw fun _ hu _ => ⟨hstrict, ⟨_, _, rfl⟩, hasAction_later hu.journal hw⟩

theorem opens_giveUp {m : ManagedWorktreeRow} (hstrict : ¬ strict)
    (hid : target.HasWorkspace lib w m.workspaceId)
    {P : Trace Call Answer → WorkspaceRecord → World → Prop} :
    Async.Safe (targetRules lib target strict) (Ordinary lib target strict)
      (openExisting.giveUp (target.key lib) m) P
      (fun _ x u => target.NeedsCleanup lib strict x u) seen w := by
  refine Async.Safe.bind (X := fun _ _ _ => False) opens_now (fun seen₁ timestamp v₁ _ h₁ => ?_)
    fun _ _ _ _ h _ _ _ => h.elim
  refine Async.Safe.bind (X := fun _ _ _ => False)
    (P := fun _ _ u => u.db.hasAction (target.key lib) .cleanupIntent = true)
    (opens_sql (fun _ _ _ => hstrict) fun v a u hv _ hinv hrun hu _ => ?_)
    (fun seen₂ _ v₂ _ h₂ => opens_cleanupRequired hstrict h₂) fun _ _ _ _ h _ _ _ => h.elim
  obtain ⟨old, hold, -⟩ := (hid.later h₁.1.world).later hv
  -- whoever has given the row up, it is not active any more
  cases hresult : v.db.requireCleanup (target.key lib) m.workspaceId timestamp with
  | error x =>
      simp only [Statement.run, hresult, Except.map, Database.orRollback] at hrun
      cases hrun
  | ok db' =>
      have hdb : ((Statement.requireCleanup (target.key lib) m.workspaceId timestamp).run v.db).2
          = db' := by simp only [Statement.run, hresult, Except.map, Database.orRollback]
      rw [hdb] at hinv hu
      obtain ⟨new, hnew⟩ : ∃ new, db'.managed.find? (target.key lib) = some new := by
        rw [(requireCleanup_tables hresult).2]
        unfold Database.updateManaged
        rw [Table.find?_updateKey, if_pos rfl, hold]
        exact ⟨_, rfl⟩
      have hstatus : new.status = .cleanupRequired := by
        rw [(requireCleanup_tables hresult).2] at hnew
        exact updateManaged_status hnew
      obtain ⟨event, hmem, hkey, haction⟩ := hinv.consistent.cleanup _ new hnew hstatus
      exact hasAction_later hu.journal (hasAction_iff.mpr ⟨event, hmem, hkey, haction⟩)

/-- A directory that is where a row has it is available; it has to be, if the
opens are strict. -/
theorem opens_inspect {row : WorkspaceRow} (havailable : strict → w.site.files.Available row)
    {X : Trace Call Answer → Thrown → World → Prop} :
    Async.Safe (targetRules lib target strict) (Ordinary lib target strict)
      (inspectPersistedWorkspacePath row.canonicalPath row.filesystemIdentity)
      (fun seen' status u => After lib target strict seen w seen' u ∧
        (status ≠ .available → ¬ strict)) X seen w := by
  refine Async.Safe.tryCatch
    (P := fun seen' status u => After lib target strict seen w seen' u ∧
      (status ≠ .available → ¬ strict))
    (X := fun _ _ _ => False)
    (Async.Safe.bind (X := fun _ _ _ => False) (opens_stat _) (fun seen₁ stats v₁ _ h₁ => ?_)
      fun _ _ _ _ h _ _ _ => h.elim)
    (fun _ _ _ _ h u hu _ => ⟨h.1.later hu, h.2⟩) fun _ _ _ _ h => h.elim
  obtain ⟨hafter, hdirectory, hstats⟩ := h₁
  rw [hdirectory]
  split
  · contradiction
  · split
    · exact Async.safe_pure fun u hu _ => ⟨hafter.later hu, fun h => absurd rfl h⟩
    · rename_i hidentity
      refine Async.safe_pure fun u hu _ => ⟨hafter.later hu, fun _ hstrict => hidentity ?_⟩
      obtain ⟨stats', hstats', -, hidentity'⟩ := (havailable hstrict).kept hafter.world.files
      rw [hstats] at hstats'
      exact (Except.ok.inj hstats').symm ▸ hidentity'

theorem opens_readFilesystemIdentity {id : JsString} (hid : target.HasWorkspace lib w id)
    {row : WorkspaceRow} (hrow : w.db.workspaces.find? id = some row)
    {X : Trace Call Answer → Thrown → World → Prop} :
    Async.Safe (targetRules lib target strict) (Ordinary lib target strict)
      (readFilesystemIdentity id)
      (fun seen' identity u => After lib target strict seen w seen' u ∧
        identity = row.filesystemIdentity ∧ (strict → u.site.files.Available row)) X seen w := by
  refine Async.Safe.bind (X := fun _ _ _ => False) (opens_selectWorkspace hid)
    (fun seen' found u _ h => ?_) fun _ _ _ _ h _ _ _ => h.elim
  obtain ⟨hafter, v, row', rfl, -, hrow', hv, hu, havailable⟩ := h
  obtain ⟨row'', hrow'', hlater⟩ := hv.rows id row hrow
  obtain rfl : row' = row'' := Option.some.inj (hrow'.symm.trans hrow'')
  refine Async.safe_pure fun u' hu' _ => ⟨hafter.later hu', hlater.filesystemIdentity,
    fun hstrict => ?_⟩
  obtain ⟨stats, hstats, hdirectory, hidentity⟩ :=
    (havailable hstrict).kept (hu.trans hu').files
  exact ⟨stats, hlater.canonicalPath ▸ hstats, hdirectory,
    hidentity.trans hlater.filesystemIdentity⟩

/-- The workspace of the key is used again, or asked to be cleaned up. -/
theorem opens_openExisting {path : JsString} (hpath : path ≠ []) {m : ManagedWorktreeRow}
    (hid : target.HasWorkspace lib w m.workspaceId)
    (hstatus : m.status = .cleanupRequired →
      ¬ strict ∧ w.db.hasAction (target.key lib) .cleanupIntent = true) :
    Async.Safe (targetRules lib target strict) (Ordinary lib target strict)
      (openExisting lib registry (target.key lib) path m)
      (fun seen' record u => After lib target strict seen w seen' u ∧
        target.HasWorkspace lib u record.workspaceId)
      (fun _ x u => target.NeedsCleanup lib strict x u) seen w := by
  unfold openExisting
  split
  · rename_i hcleanup
    obtain ⟨hstrict, hw⟩ := hstatus hcleanup
    exact opens_cleanupRequired hstrict hw
  · refine Async.Safe.bind (X := fun _ _ _ => False)
      (P := fun seen' id u => After lib target strict seen w seen' u ∧ id = m.workspaceId)
      (Async.Safe.intro fun v hv hinv => ?_) (fun seen₁ id v₁ _ h₁ => ?_)
      fun _ _ _ _ h _ _ _ => h.elim
    · obtain ⟨m', hm', hid'⟩ := hid.later hv
      obtain ⟨row, -, hreadable, -⟩ := hinv.held m' hm'
      have hne : m.workspaceId ≠ [] := hid' ▸ hreadable.id_ne
      have hparse : parseEntityId "workspace" m.workspaceId = .ok m.workspaceId :=
        if_neg fun h => hne (List.length_eq_zero_iff.mp h)
      rw [hparse]
      exact Async.safe_pure fun u hu _ => ⟨⟨List.prefix_rfl, hv.trans hu⟩, rfl⟩
    · obtain ⟨hafter₁, rfl⟩ := h₁
      have hid₁ := hid.later hafter₁.world
      refine Async.Safe.bind (X := fun _ _ _ => False) (opens_read hid₁)
        (fun seen₂ record v₂ _ h₂ => ?_) fun _ _ _ _ h _ _ _ => h.elim
      obtain ⟨hafter₂, v, row, rfl, hrow, hv⟩ := h₂
      have hid₂ := hid₁.later hafter₂.world
      obtain ⟨row₂, hrow₂, hlater⟩ := hv.rows _ row hrow
      refine Async.Safe.bind (X := fun _ _ _ => False)
        (opens_readFilesystemIdentity hid₂ hrow₂) (fun seen₃ identity v₃ _ h₃ => ?_)
        fun _ _ _ _ h _ _ _ => h.elim
      obtain ⟨hafter₃, rfl, havailable⟩ := h₃
      have hcanonical : (row.fields m.workspaceId).canonicalPath = row₂.canonicalPath :=
        hlater.canonicalPath.symm
      rw [hcanonical]
      refine Async.Safe.bind (X := fun _ _ _ => False) (opens_inspect havailable)
        (fun seen₄ status v₄ _ h₄ => ?_) fun _ _ _ _ h _ _ _ => h.elim
      obtain ⟨hafter₄, hunavailable⟩ := h₄
      have hafter := ((hafter₁.trans hafter₂).trans hafter₃).trans hafter₄
      split
      · refine Async.Safe.bind (X := fun _ _ _ => False) opens_now
          (fun seen₅ timestamp v₅ _ h₅ => ?_) fun _ _ _ _ h _ _ _ => h.elim
        refine Async.Safe.bind (X := fun _ _ _ => False)
          (P := fun seen' _ u => After lib target strict seen₅ v₅ seen' u)
          (opens_sql (fun _ _ _ => ⟨hpath, h₅.2, registry.owner_ne⟩)
            fun _ _ _ _ _ _ _ _ h => h)
          (fun seen₆ _ v₆ _ h₆ => ?_) fun _ _ _ _ h _ _ _ => h.elim
        have hafter₆ := (hafter.trans h₅.1).trans h₆
        refine (opens_readRequired (hid.later hafter₆.world)).mono (fun _ record u _ h => ?_)
          fun _ _ _ _ h => h
        obtain ⟨hafter₇, hsame⟩ := h
        exact ⟨hafter₆.trans hafter₇, hsame ▸ hid.later (hafter₆.trans hafter₇).world⟩
      · rename_i hstatus
        exact opens_giveUp (hunavailable hstatus) (hid.later hafter.world)

/-! ## The source -/

/-- git has told a commit. -/
def Resolved (seen : Trace Call Answer) : Prop :=
  ∃ repoRoot revision stdout,
    (⟨.revParse repoRoot revision, .ok stdout⟩ : (c : Call) × Answer c) ∈ seen ∧
      isCommitId (trim stdout) = true

theorem not_resolved_append (h : ¬ Resolved seen) {c : Call} {r : Answer c}
    (hc : ∀ repoRoot revision stdout,
      (⟨c, r⟩ : (c : Call) × Answer c) = ⟨.revParse repoRoot revision, .ok stdout⟩ →
      isCommitId (trim stdout) = false) : ¬ Resolved (seen ++ [⟨c, r⟩]) := by
  rintro ⟨repoRoot, revision, stdout, hmem, hcommit⟩
  obtain hmem | hmem := List.mem_append.mp hmem
  · exact h ⟨repoRoot, revision, stdout, hmem, hcommit⟩
  · rw [hc repoRoot revision stdout (List.mem_singleton.mp hmem).symm] at hcommit
    cases hcommit

variable (lib) in
/-- An open before git has told its commit. -/
structure Before (target : Target) (strict : Prop) (w : World) (seen' : Trace Call Answer)
    (u : World) : Prop where
  unresolved : ¬ Resolved seen'
  world : Follows lib target strict w u

/-- Functions that ask the file system. -/
theorem opens_asks {p : Async α} (hp : Async.Uses Call.Asks p) (hseen : ¬ Resolved seen) :
    Async.Safe (targetRules lib target strict) (Ordinary lib target strict) p
      (fun seen' _ u => Before lib target strict w seen' u)
      (fun seen' _ u => Before lib target strict w seen' u) seen w := by
  refine Async.safe_of_uses (F := fun seen' u => Before lib target strict w seen' u)
    (fun _ v u hu h => ⟨h.unresolved, h.world.trans hu⟩) (fun seen' c v e hc hinv he h => ?_) hp
    ⟨hseen, .refl _ _ _⟩
  have hfits : Fits lib target strict v c := by
    cases c with
    | realpath path => trivial
    | stat path => trivial
    | lstat path => trivial
    | _ => exact hc.elim
  refine ⟨hinv.call he hfits, he.follows hfits, not_resolved_append h.unresolved ?_,
    h.world.trans (he.follows hfits)⟩
  rintro repoRoot revision stdout heq
  obtain ⟨rfl, -⟩ := Sigma.mk.inj heq
  exact hc.elim

theorem opens_canonicalPath (path : JsString) :
    Async.Safe (targetRules lib target strict) (Ordinary lib target strict)
      (resolveWorkspaceDirectory path) (fun _ directory _ => directory.1 ≠ [])
      (fun _ _ _ => True) seen w := by
  refine Async.Safe.bind (P := fun _ canonical _ => canonical ≠ []) (X := fun _ _ _ => True)
    (Async.Safe.mapError (opens_realpath path) (fun _ _ _ _ h _ _ _ => h.2.1)
      fun _ _ _ _ _ _ _ _ => trivial)
    (fun seen₁ canonical v₁ _ h₁ => ?_) fun _ _ _ _ _ _ _ _ => trivial
  refine Async.Safe.bind (P := fun _ _ _ => True) (X := fun _ _ _ => True)
    (Async.Safe.mapError (X := fun _ _ _ => True) (opens_stat canonical)
      (fun _ _ _ _ _ _ _ _ => trivial) fun _ _ _ _ _ _ _ _ => trivial)
    (fun seen₂ stats v₂ _ _ => ?_) fun _ _ _ _ _ _ _ _ => trivial
  split
  · exact Async.safe_throw fun _ _ _ => trivial
  · exact Async.safe_pure fun _ _ _ => h₁

theorem opens_findRepoRootIn :
    ∀ (directories : List JsString) (seen : Trace Call Answer) (w : World),
    Async.Safe (targetRules lib target strict) (Ordinary lib target strict)
      (findRepoRootIn directories)
      (fun _ found _ => ∀ repoRoot, found = some repoRoot → repoRoot ∈ directories)
      (fun _ _ _ => True) seen w
  | [], seen, w => Async.safe_pure fun _ _ _ _ h => by cases h
  | current :: rest, seen, w => by
      refine Async.Safe.tryCatch
        (P := fun _ found _ => ∀ repoRoot, found = some repoRoot → repoRoot ∈ current :: rest)
        (X := fun _ _ _ => True)
        (Async.Safe.bind (P := fun _ _ _ => True) (X := fun _ _ _ => True)
          (opens_call (fun _ _ _ => trivial) fun _ _ _ _ _ _ _ _ => by split <;> trivial)
          (fun _ _ _ _ _ => Async.safe_pure fun _ _ _ repoRoot h => ?_)
          fun _ _ _ _ _ _ _ _ => trivial)
        (fun _ _ _ _ h _ _ _ => h) fun seen' x v _ _ => ?_
      · exact Option.some.inj h ▸ List.mem_cons_self
      · split
        · exact (opens_findRepoRootIn rest seen' v).mono
            (fun _ _ _ _ h repoRoot hfound => List.mem_cons_of_mem _ (h repoRoot hfound))
            fun _ _ _ _ _ => trivial
        · split
          · exact Async.safe_pure fun _ _ _ _ h => by cases h
          · exact Async.safe_throw fun _ _ _ => trivial

/-- The commit is that of the target, or git has told none. -/
theorem opens_resolveGitCommit {repoRoot baseRef : JsString} {stats : BigIntStats}
    (hseen : ¬ Resolved seen) (hstats : w.site.files.stat repoRoot = .ok stats) :
    Async.Safe (targetRules lib target strict) (Ordinary lib target strict)
      (resolveGitCommit repoRoot baseRef)
      (fun _ commit u => Follows lib target strict w u ∧ commit = target.commit ∧
        isCommitId commit = true ∧ toLowerAscii commit = commit ∧
        target.repositoryOf repoRoot = target.repository ∧
        filesystemIdentityFromStats stats = target.identity)
      (fun seen' _ u => Before lib target strict w seen' u) seen w := by
  unfold resolveGitCommit
  split
  · exact Async.safe_throw fun _ hu _ => ⟨hseen, hu⟩
  · refine Async.Safe.bind
      (P := fun seen' stdout u => After lib target strict seen w seen' u ∧
        (isCommitId (trim stdout) = false → ¬ Resolved seen') ∧
        toLowerAscii (trim stdout) = target.commit ∧
        target.repositoryOf repoRoot = target.repository ∧
        filesystemIdentityFromStats stats = target.identity)
      (X := fun seen' _ u => Before lib target strict w seen' u)
      (opens_call (fun _ _ _ => trivial) fun v e u hv _ he hafter hu => ?_)
      (fun seen' stdout v _ h => ?_) fun _ _ _ _ h _ hu _ => ⟨h.unresolved, h.world.trans hu⟩
    · obtain ⟨hrepository, hidentity, hcommit⟩ := he.source repoRoot _ rfl
      cases hanswer : (handler e (.revParse repoRoot (baseRef ++ js "^\x7bcommit\x7d")) v).1 with
      | error failure =>
          rw [hanswer] at hafter
          refine ⟨not_resolved_append hseen ?_, hafter.world⟩
          rintro _ _ stdout heq
          obtain ⟨heq', hanswer'⟩ := Sigma.mk.inj heq
          cases heq'
          cases hanswer'
      | ok stdout =>
          rw [hanswer] at hafter
          refine ⟨hafter, fun hinvalid => not_resolved_append hseen ?_, ?_, hrepository,
            hidentity stats (hv.files.stat _ _ hstats)⟩
          · rintro _ _ stdout' heq
            obtain ⟨heq', hanswer'⟩ := Sigma.mk.inj heq
            cases heq'
            cases hanswer'
            exact hinvalid
          · refine hcommit stdout ?_
            change orFault e.gitFailure ((v.evolve e).site.revision repoRoot _) = _ at hanswer
            rw [World.evolve_none he.evolved] at hanswer
            unfold orFault at hanswer
            split at hanswer
            · cases hanswer
            · exact hanswer
    · obtain ⟨hafter, hinvalid, hcommit, hrepository, hidentity⟩ := h
      dsimp only
      split
      · rename_i hno
        exact Async.safe_throw fun u hu _ =>
          ⟨hinvalid (by simpa using hno), hafter.world.trans hu⟩
      · rename_i hvalid
        have hid : isCommitId (trim stdout) = true := by simpa using hvalid
        exact Async.safe_pure fun u hu _ => ⟨hafter.world.trans hu, hcommit,
          isCommitId_toLowerAscii hid, toLowerAscii_idem _, hrepository, hidentity⟩

theorem Before.later {w' : World} {seen' : Trace Call Answer} {u v : World}
    (h : Before lib target strict w seen' u) (hu : Follows lib target strict u v)
    (hw : Follows lib target strict w' w) : Before lib target strict w' seen' v :=
  ⟨h.unresolved, (hw.trans h.world).trans hu⟩

/-- The source of an open is that of the target. -/
theorem opens_resolveSource {requestedPath requestedBaseRef : JsString}
    (hseen : ¬ Resolved seen) :
    Async.Safe (targetRules lib target strict) (Ordinary lib target strict)
      (resolveSource registry requestedPath requestedBaseRef)
      (fun _ source _ => (source.registration lib).For lib target)
      (fun seen' _ u => Before lib target strict w seen' u) seen w := by
  refine Async.Safe.bind
    ((opens_asks asks_resolveWorkspaceDirectory hseen).and (opens_canonicalPath _))
    (fun seen₁ directory v₁ _ h₁ => ?_) fun _ _ _ _ h _ hu _ => h.1.later hu (.refl _ _ _)
  obtain ⟨sourcePath, identity⟩ := directory
  obtain ⟨h₁, hsource⟩ := h₁
  refine Async.Safe.bind
    ((opens_asks (asks_findRepoRootIn _) h₁.unresolved).and (opens_findRepoRootIn _ _ _))
    (fun seen₂ found v₂ _ h₂ => ?_) fun _ _ _ _ h _ hu _ => h.1.later hu h₁.world
  obtain ⟨h₂, hfound⟩ := h₂
  have h₂ := h₂.later (.refl _ _ _) h₁.world
  split
  · exact Async.safe_throw fun _ hu _ => h₂.later hu (.refl _ _ _)
  · rename_i repoRoot
    have hrepoRoot : repoRoot ≠ [] := ne_nil_of_mem_ancestorsFrom hsource (hfound repoRoot rfl)
    split
    · exact Async.safe_throw fun _ hu _ => h₂.later hu (.refl _ _ _)
    · refine Async.Safe.bind (opens_asks (asks_canonicalizeFrom _ _ _) h₂.unresolved)
        (fun seen₃ managedRoot v₃ _ h₃ => ?_) fun _ _ _ _ h _ hu _ => h.later hu h₂.world
      have h₃ := h₃.later (.refl _ _ _) h₂.world
      split
      · exact Async.safe_throw fun _ hu _ => h₃.later hu (.refl _ _ _)
      · refine Async.Safe.bind ((opens_asks asks_stat h₃.unresolved).and
          (opens_stat (X := fun _ _ _ => True) repoRoot)) (fun seen₄ stats v₄ _ h₄ => ?_)
          fun _ _ _ _ h _ hu _ => h.1.later hu h₃.world
        obtain ⟨h₄, -, -, hstats⟩ := h₄
        have h₄ := h₄.later (.refl _ _ _) h₃.world
        refine Async.Safe.bind (X := fun seen' _ u => Before lib target strict w seen' u)
          (Async.Safe.mapError (opens_resolveGitCommit h₄.unresolved hstats)
            (fun _ _ _ _ h _ _ _ => h.2) fun _ _ _ _ h _ hu _ => h.later hu h₄.world)
          (fun seen₅ commit v₅ _ h₅ => ?_) fun _ _ _ _ h _ hu _ => h.later hu (.refl _ _ _)
        obtain ⟨rfl, hcommitId, hlower, hrepository, hidentity⟩ := h₅
        refine Async.safe_pure fun _ _ _ => ?_
        have hkey : worktreeOwnershipKey lib (filesystemIdentityFromStats stats) target.commit
            = target.key lib := by rw [hidentity]; rfl
        exact { key := hkey, identity := hidentity, commit := rfl,
                branch := congrArg worktreeBranch hkey,
                path := ⟨managedRoot, congrArg (join managedRoot) hkey⟩, repository := hrepository,
                commitId := hcommitId, lower := hlower, repoRoot_ne := hrepoRoot,
                requestedPath_ne := List.cons_ne_nil _ _ }

/-! ## An open -/

theorem opens_mkdir (path : JsString) {X : Trace Call Answer → Thrown → World → Prop} :
    Async.Safe (targetRules lib target strict) (Ordinary lib target strict) (mkdir path)
      (fun seen' _ u => After lib target strict seen w seen' u) X seen w := by
  refine opens_call (fun _ _ _ => trivial) fun v e u _ _ he hafter _ => ?_
  have hanswer : (handler e (.mkdir path) v).1 = .ok ⟨⟩ := he.answered
  rw [hanswer] at hafter ⊢
  exact hafter

/-- From the ownership key on. -/
theorem opens_openSource {source : WorktreeSource}
    (hfor : (source.registration lib).For lib target) :
    Async.Safe (targetRules lib target strict) (Ordinary lib target strict)
      (openSource lib registry source)
      (fun _ record u => target.HasWorkspace lib u record.workspaceId)
      (fun _ x u => target.NeedsCleanup lib strict x u) seen w := by
  unfold openSource
  dsimp only
  rw [hfor.key]
  refine Async.Safe.bind (X := fun _ _ _ => False) opens_selectManaged
    (fun seen₁ existing v₁ _ h₁ => ?_) fun _ _ _ _ h _ _ _ => h.elim
  obtain ⟨-, hexisting⟩ := h₁
  cases existing with
  | some m =>
      obtain ⟨hid, hstatus⟩ := hexisting m rfl
      exact (opens_openExisting hfor.requestedPath_ne hid hstatus).mono
        (fun _ _ _ _ h => h.2) fun _ _ _ _ h => h
  | none =>
      refine Async.Safe.bind (X := fun _ _ _ => False) (opens_mkdir _)
        (fun seen₂ _ v₂ _ _ => ?_) fun _ _ _ _ h _ _ _ => h.elim
      refine Async.Safe.bind (X := fun _ _ _ => False) (opens_openPath hfor)
        (fun seen₃ opened v₃ _ h₃ => ?_) fun _ _ _ _ h _ _ _ => h.elim
      cases opened with
      | some record => exact Async.safe_pure fun u hu _ => (h₃.2 record rfl).later hu
      | none =>
          refine Async.Safe.bind (opens_openBranch hfor) (fun seen₄ opened v₄ _ h₄ => ?_)
            fun _ _ _ _ h _ hu _ => h.later hu
          cases opened with
          | some record => exact Async.safe_pure fun u hu _ => (h₄.2 record rfl).later hu
          | none =>
              exact (opens_createWorktree hfor).mono (fun _ _ _ _ h => h.2) fun _ _ _ _ h => h

end

/-- `open` in worktree mode. -/
def Request.IsWorktree : Request → Prop
  | .open _ _ options => options.mode = some .worktree
  | .get _ => False

variable (lib) in
/-- How an open of the target ends once git has told a commit. -/
def Target.Opened (target : Target) (strict : Prop) (q : Request) (seen : Trace Call Answer)
    (outcome : Outcome) (w : World) : Prop :=
  q.IsWorktree → Resolved seen →
    (∃ record, outcome = .ok (some record) ∧ target.HasWorkspace lib w record.workspaceId) ∨
    ∃ x, outcome = .error x ∧ target.NeedsCleanup lib strict x w

theorem Target.Opened.later {target : Target} {strict : Prop} {q : Request}
    {seen : Trace Call Answer} {outcome : Outcome} {v w : World}
    (h : target.Opened lib strict q seen outcome v) (hw : Follows lib target strict v w) :
    target.Opened lib strict q seen outcome w := by
  intro hq hseen
  obtain ⟨record, houtcome, hid⟩ | ⟨x, houtcome, hx⟩ := h hq hseen
  · exact .inl ⟨record, houtcome, hid.later hw⟩
  · exact .inr ⟨x, houtcome, hx.later hw⟩

/-- An open of the target, from its start to its end. -/
theorem opens_open (lib : Libraries) (target : Target) (strict : Prop) (q : Request) (w : World)
    (hq : q.IsWorktree) :
    (q.program lib).Safe (targetRules lib target strict) (Ordinary lib target strict)
      (target.Opened lib strict q) [] w := by
  have hunresolved : ¬ Resolved [] := by
    rintro ⟨_, _, _, hmem, -⟩
    cases hmem
  cases q with
  | get id => exact hq.elim
  | «open» registry path options =>
      have hopen : Async.Safe (targetRules lib target strict) (Ordinary lib target strict)
          (registry.open lib path options)
          (fun _ record u => target.HasWorkspace lib u record.workspaceId)
          (fun seen' x u => ¬ Resolved seen' ∨ target.NeedsCleanup lib strict x u) [] w := by
        have hmode : options.mode = some .worktree := hq
        unfold WorkspaceRegistry.open
        rw [hmode]
        split
        · exact Async.safe_throw fun _ _ _ => .inl hunresolved
        · refine Async.Safe.bind (opens_resolveSource hunresolved) (fun seen' source u _ h => ?_)
            fun _ _ _ _ h _ _ _ => .inl h.unresolved
          exact (opens_openSource h).mono (fun _ _ _ _ h => h) fun _ _ _ _ h => .inr h
      have hsome : Async.Safe (targetRules lib target strict) (Ordinary lib target strict)
          (some <$> registry.open lib path options)
          (fun _ found u => ∃ record, found = some record ∧
            target.HasWorkspace lib u record.workspaceId)
          (fun seen' x u => ¬ Resolved seen' ∨ target.NeedsCleanup lib strict x u) [] w :=
        hopen.map (fun _ record _ _ h _ hu _ => ⟨record, rfl, h.later hu⟩)
          fun _ _ _ _ h _ hu _ => h.imp id fun h => h.later hu
      refine Prog.Safe.mono (fun seen outcome u _ hpost _ hresolved => ?_) hsome
      cases outcome with
      | ok found =>
          obtain ⟨record, rfl, hid⟩ := hpost
          exact .inl ⟨record, rfl, hid⟩
      | error x => exact .inr ⟨x, rfl, hpost.resolve_left (not_not.mpr hresolved)⟩

/-! ## Runs -/

variable (lib) in
/-- The key has no managed row, no branch and nothing at its path. -/
structure Target.Untouched (target : Target) (w : World) : Prop where
  consistent : Consistent lib w.db
  repository : w.site.repository = target.repositoryOf
  managed : w.db.managed.find? (target.key lib) = none
  branch : w.site.branches target.repository (worktreeBranch (target.key lib)) = none
  path : ∀ root node, w.site.files.lstat (join root (target.key lib)) ≠ .ok node

theorem Target.Untouched.orderly {target : Target} {w : World} (h : target.Untouched lib w)
    (strict : Prop) : Orderly lib target strict w where
  consistent := h.consistent
  repository := h.repository
  branch commit hcommit := by
    rw [h.branch] at hcommit
    cases hcommit
  path root node hnode := absurd hnode (h.path root node)
  held m hm := by
    rw [h.managed] at hm
    cases hm
  source m hm := by
    rw [h.managed] at hm
    cases hm

/-- The only managed row of a source is that of its key. -/
theorem Orderly.key_eq {target : Target} {strict : Prop} {w : World}
    (h : Orderly lib target strict w) {key : JsString} {m : ManagedWorktreeRow}
    (hm : w.db.managed.find? key = some m) (hsource : m.source = (target.identity, target.commit)) :
    key = target.key lib := by
  obtain ⟨hidentity, hcommit⟩ := Prod.mk.inj hsource
  rw [(h.consistent.named key m hm).1, hidentity, hcommit]
  rfl

/-- Opens of one target at once, where nothing fails but the branch that git
refuses and every open that looks for the worktree of another finds it: each is
resolved with the workspace of the one managed row of the source. And each ends,
if it is called again and again. -/
theorem opens_coalesce (lib : Libraries) (target : Target) (s : System) (hthreads : s.threads = [])
    (hs : target.Untouched lib s.world) :
    (∀ actions, Meets (System.step lib)
        (Pool.Allowed (fun q _ => q.IsWorktree) fun _ => Ordinary lib target True) s actions →
      ∀ (i : Nat) t outcome, (s.run lib actions).threads[i]? = some t → t.request.IsWorktree →
        t.rest = .done outcome → Resolved t.history →
        ∃ record m, outcome = .ok (some record) ∧
          (s.run lib actions).world.db.managed.find? (target.key lib) = some m ∧
          m.workspaceId = record.workspaceId ∧ m.source = (target.identity, target.commit) ∧
          ∀ key m', (s.run lib actions).world.db.managed.find? key = some m' →
            m'.source = (target.identity, target.commit) → key = target.key lib) ∧
    ∀ (schedule : Nat → Pool.Action Request Choice) (i n : Nat),
      i < (s.run lib ((List.range n).map schedule)).threads.length →
      (∀ n, ∃ m ≥ n, ∃ e, schedule m = .call i e) →
      ∃ m t outcome, (s.run lib ((List.range m).map schedule)).threads[i]? = some t ∧
        t.rest = .done outcome := by
  refine ⟨fun actions hmeets i t outcome ht hq hrest hresolved => ?_,
    fun schedule i n hi hfair => ?_⟩
  · have hstart : Pool.Sound (targetRules lib target True) (fun _ => Ordinary lib target True)
        (target.Opened lib True) s := ⟨hs.orderly True, fun i t ht => by simp [hthreads] at ht⟩
    have hsound := hstart.run (fun _ _ _ _ h => h)
      (fun q w hq _ => opens_open lib target True q w hq) actions hmeets
    obtain ⟨record, rfl, m, hm, hid⟩ | ⟨x, -, hstrict, -⟩ := hsound.ended ht hrest hq hresolved
    · exact ⟨record, m, rfl, hm, hid, hsound.world.source m hm,
        fun key m' hm' hsource => hsound.world.key_eq hm' hsource⟩
    · exact absurd trivial hstrict
  · exact Pool.ends (Request.program lib) handler schedule hfair _ n _
      (List.getElem?_eq_getElem hi) rfl

/-- Opens of one target of which each may be killed before the next is started,
where nothing fails and git lists the worktree whenever something is found at
its path: each is resolved with the workspace of the key, or asks for a cleanup
that the journal has. -/
theorem recovers_leftovers (lib : Libraries) (target : Target) (s : System)
    (hthreads : s.threads = []) (hs : target.Untouched lib s.world)
    (actions : List (Pool.Action Request Choice))
    (hmeets : Meets (System.step lib)
      (Pool.InTurn (fun q _ => q.IsWorktree) fun _ => Ordinary lib target False) s actions)
    {i : Nat} {t : Thread Request Call Answer Outcome} {outcome : Outcome}
    (ht : (s.run lib actions).threads[i]? = some t) (hq : t.request.IsWorktree)
    (hrest : t.rest = .done outcome) (hresolved : Resolved t.history) :
    (∃ record m, outcome = .ok (some record) ∧
      (s.run lib actions).world.db.managed.find? (target.key lib) = some m ∧
      m.workspaceId = record.workspaceId ∧ m.source = (target.identity, target.commit)) ∨
    ∃ path message, outcome = .error (.registry ⟨.worktreeCleanupRequired, path, message⟩) ∧
      (s.run lib actions).world.db.hasAction (target.key lib) .cleanupIntent = true := by
  have hstart : Pool.Turns (targetRules lib target False) (fun _ => Ordinary lib target False)
      (target.Opened lib False) s :=
    ⟨hs.orderly False, fun i t ht => by simp [hthreads] at ht,
      fun i t a ht => by simp [hthreads] at ht⟩
  have hturns := hstart.run (fun _ _ _ _ _ _ _ hguar h => h.later hguar)
    (fun q w hq _ => opens_open lib target False q w hq) actions hmeets
  obtain ⟨record, rfl, m, hm, hid⟩ | ⟨x, rfl, -, ⟨path, message, rfl⟩, hcleanup⟩ :=
    hturns.ended i t outcome ht hrest hq hresolved
  · exact .inl ⟨record, m, rfl, hm, hid, hturns.world.source m hm⟩
  · exact .inr ⟨path, message, rfl, hcleanup⟩

/-! ## Runs of the sample -/

namespace Sample

/-- The worktree of the commit in the repository at `/r`. -/
def target : Target where
  identity := js "1:2:0"
  commit := commit
  repositoryOf root := root
  repository := js "/r"

/-- `Answered`, as a check. -/
def answered : (c : Call) → Answer c → Bool
  | .sql _, r => Except.toBool r
  | .realpath _, r => match (r : Except Errno JsString) with
    | .ok path => path ≠ []
    | .error _ => true
  | .stat _, r => match (r : Except Errno BigIntStats) with
    | .ok stats => stats.isDirectory
    | .error _ => false
  | .lstat _, r => match (r : Except Errno Unit) with
    | .ok _ => true
    | .error e => e.code = js "ENOENT"
  | .mkdir _, r => Except.toBool r
  | .revParse _ _, _ => true
  | .branchCommit _ _, r => match (r : Except ExecFailure JsString) with
    | .ok _ => true
    | .error failure => failure.code = some 1
  | .worktreeList _, r => Except.toBool r
  | .worktreeAdd stage _, r => stage = .branch || Except.toBool r
  | .now, r => match (r : Except JsError JsString) with
    | .ok timestamp => timestamp ≠ []
    | .error _ => false
  | .createWorkspaceId, r => match (r : Except JsError WorkspaceId) with
    | .ok id => id.text.length ≤ 256
    | .error _ => false
  | .delay _, _ => true

theorem answered_sound {c : Call} {r : Answer c} (h : answered c r = true) : Answered c r := by
  cases c with
  | sql s =>
      cases r with
      | ok a => exact ⟨a, rfl⟩
      | error x => cases h
  | realpath path =>
      rintro canonical rfl
      exact of_decide_eq_true h
  | stat path =>
      cases r with
      | ok stats => exact ⟨stats, rfl, h⟩
      | error x => cases h
  | lstat path =>
      rintro x rfl
      exact of_decide_eq_true h
  | mkdir path =>
      cases r with
      | ok a => rfl
      | error x => cases h
  | revParse repoRoot revision => trivial
  | branchCommit repoRoot branch =>
      rintro failure rfl
      exact of_decide_eq_true h
  | worktreeList repoRoot =>
      cases r with
      | ok stdout => exact ⟨stdout, rfl⟩
      | error x => cases h
  | worktreeAdd stage worktree =>
      intro hstage
      cases r with
      | ok a => rfl
      | error x =>
          obtain h | h := Bool.or_eq_true_iff.mp h
          · exact absurd (of_decide_eq_true h) hstage
          · cases h
  | now =>
      cases r with
      | ok timestamp => exact ⟨timestamp, rfl, of_decide_eq_true h⟩
      | error x => cases h
  | createWorkspaceId =>
      cases r with
      | ok id => exact ⟨id, rfl, of_decide_eq_true h⟩
      | error x => cases h
  | delay milliseconds => trivial

/-- The paths at which a worktree has to be found. -/
def decisive (seen : Trace Call Answer) : List JsString :=
  (seen.filterMap fun
    | ⟨.lstat path, .ok _⟩ => some path
    | ⟨.worktreeAdd .branch worktree, .error _⟩ => some worktree.worktreePath
    | _ => none).filter fun path => basename path = target.key libraries

theorem plain_key : Plain (target.key libraries) := by
  refine ⟨?_, ?_, ?_, ?_⟩ <;> decide

theorem decisive_sound {strict : Prop} {seen : Trace Call Answer} {root : JsString}
    (hlooks : looks seen ≤ WORKTREE_INFLIGHT_RECONCILE_ATTEMPTS)
    (h : Decisive strict seen (join root (target.key libraries))) :
    join root (target.key libraries) ∈ decisive seen := by
  refine List.mem_filter.mpr ⟨?_, decide_eq_true (basename_join plain_key root)⟩
  obtain h | ⟨worktree, failure, hpath, h⟩ | ⟨-, h⟩ := h
  · exact List.mem_filterMap.mpr ⟨_, h, rfl⟩
  · exact List.mem_filterMap.mpr ⟨_, h, congrArg some hpath⟩
  · exact absurd h (Nat.not_lt.mpr hlooks)

/-- `Target.Listed`, as a check. -/
def listed (site : Site) (repoRoot path : JsString) : Bool :=
  match site.files.realpath path with
  | .ok canonical =>
      (parseWorktreePorcelain (site.listing repoRoot)).any fun worktree =>
        (site.files.realpath worktree.path).toOption = some canonical &&
          worktree.head.map toLowerAscii = some target.commit &&
          worktree.branch = some (branchRef (worktreeBranch (target.key libraries))) &&
          worktree.lockedReason = some (lockReason (target.key libraries))
  | .error _ => false

theorem listed_sound {site : Site} {repoRoot path : JsString}
    (h : listed site repoRoot path = true) : target.Listed libraries site repoRoot path := by
  unfold listed at h
  split at h
  · rename_i canonical hcanonical
    obtain ⟨worktree, hmem, h⟩ := List.any_eq_true.mp h
    simp only [Bool.and_eq_true, decide_eq_true_eq] at h
    obtain ⟨⟨⟨hpath, hhead⟩, hbranch⟩, hlocked⟩ := h
    refine ⟨canonical, hcanonical, worktree, hmem, ?_, hhead, hbranch, hlocked⟩
    cases hreal : site.files.realpath worktree.path with
    | ok path' =>
        rw [hreal] at hpath
        rw [Option.some.inj hpath]
    | error x =>
        rw [hreal] at hpath
        cases hpath
  · cases h

/-- `Faultless`, as a check. -/
def faultless (c : Call) (v : World) (id : Char) : Bool :=
  answered c (handler (choice id) c v).1 &&
    match c with
    | .revParse repoRoot _ => repoRoot = js "/r"
    | _ => true

/-- `Recognised`, as a check. -/
def recognised (seen : Trace Call Answer) (c : Call) (v : World) : Bool :=
  looks seen ≤ WORKTREE_INFLIGHT_RECONCILE_ATTEMPTS &&
    match c with
    | .realpath path =>
        !(decisive seen).contains path || Except.toBool (v.site.files.realpath path)
    | .worktreeList repoRoot => (decisive seen).all (listed v.site repoRoot)
    | .branchCommit _ _ => (v.site.branches target.repository
        (worktreeBranch (target.key libraries))).isNone
    | _ => true

/-- The files are those of the sample, with the worktree or without. -/
structure Filed (site : Site) : Prop where
  files : site.files.realpath = files.realpath ∧ site.files.stat = files.stat ∨
    site.files.realpath = made.realpath ∧ site.files.stat = made.stat
  revision : site.revision = Sample.site.revision

theorem Filed.kept {site : Site} (h : Filed site) : site.files.Kept made := by
  obtain ⟨hrealpath, hstat⟩ | ⟨hrealpath, hstat⟩ := h.files
  · refine ⟨fun path canonical hpath => ?_, fun path stats hpath => ?_⟩
    · rw [hrealpath] at hpath
      simp only [Sample.files] at hpath
      split at hpath
      · exact hpath
      · cases hpath
    · rw [hstat] at hpath
      simp only [Sample.files] at hpath
      split at hpath
      · exact hpath
      · cases hpath
  · exact ⟨fun _ _ hpath => hrealpath ▸ hpath, fun _ _ hpath => hstat ▸ hpath⟩

theorem Filed.handler {v : World} (h : Filed v.site) (c : Call) (id : Char) :
    Filed (Workspace.handler (choice id) c v).2.site := by
  have hrevision := (handler_repository (e := choice id) rfl c v).2.trans h.revision
  obtain hfiles | ⟨path, rfl, hfiles⟩ | ⟨worktree, rfl, hfiles⟩ :=
    handler_files (e := choice id) rfl c v
  · exact ⟨hfiles ▸ h.files, hrevision⟩
  · exact ⟨.inr ⟨hfiles ▸ rfl, hfiles ▸ rfl⟩, hrevision⟩
  · exact ⟨.inr ⟨hfiles ▸ rfl, hfiles ▸ rfl⟩, hrevision⟩

theorem faultless_sound {c : Call} {v : World} {id : Char} (hv : Filed v.site)
    (h : faultless c v id = true) : Faultless libraries target c v (choice id) := by
  obtain ⟨hanswered, h⟩ := Bool.and_eq_true_iff.mp h
  refine ⟨rfl, answered_sound hanswered, hv.kept, fun _ _ _ _ hnode => ?_,
    fun _ _ => ⟨_, rfl⟩, fun repoRoot revision hc => ?_⟩
  · cases hnode
  · subst hc
    obtain rfl : repoRoot = js "/r" := of_decide_eq_true h
    refine ⟨rfl, fun stats hstats => ?_, fun stdout hstdout => ?_⟩
    · obtain ⟨-, hstat⟩ | ⟨-, hstat⟩ := hv.files
      · rw [hstat] at hstats
        obtain rfl := Except.ok.inj hstats
        decide
      · rw [hstat] at hstats
        obtain rfl := Except.ok.inj hstats
        decide
    · rw [hv.revision] at hstdout
      obtain rfl := Except.ok.inj hstdout
      decide +kernel

theorem recognised_sound (strict : Prop) {seen : Trace Call Answer} {c : Call} {v : World}
    (h : recognised seen c v = true) : Recognised libraries target strict seen c v := by
  obtain ⟨hlooks, h⟩ := Bool.and_eq_true_iff.mp h
  have hlooks := of_decide_eq_true hlooks
  refine ⟨fun _ repoRoot hc hbranch => ?_,
    fun root hdecisive => ⟨fun hc => ?_, fun repoRoot hc => ?_⟩⟩
  · subst hc
    exact absurd (Option.isNone_iff_eq_none.mp h) hbranch
  · subst hc
    obtain h | h := Bool.or_eq_true_iff.mp h
    · rw [List.contains_iff_mem.mpr (decisive_sound hlooks hdecisive)] at h
      cases h
    · cases hpath : v.site.files.realpath (join root (target.key libraries)) with
      | ok canonical => exact ⟨canonical, rfl⟩
      | error x =>
          rw [hpath] at h
          cases h
  · subst hc
    exact listed_sound (List.all_eq_true.mp h _ (decisive_sound hlooks hdecisive))

/-- A start, or a call of a request that is given an id for a new workspace. -/
def action : Option (Nat × Char) → Pool.Action Request Choice
  | none => worktree
  | some (i, id) => .call i (choice id)

/-- In every step of the run nothing fails; if `turns`, it is one of the last
request, and if `finds`, it finds the worktree that it looks for. -/
def check (turns finds : Bool) : System → List (Option (Nat × Char)) → Bool
  | _, [] => true
  | s, none :: actions => check turns finds (s.step libraries worktree) actions
  | s, some (i, id) :: actions =>
      (!turns || i + 1 = s.threads.length) &&
        (match s.threads[i]? with
          | some t =>
              match t.rest with
              | .call c _ =>
                  faultless c s.world id && (!finds || recognised t.history c s.world)
              | .done _ => true
          | none => true) &&
        check turns finds (s.step libraries (.call i (choice id))) actions

theorem meets (turns finds : Bool) (strict : Prop) :
    ∀ (actions : List (Option (Nat × Char))) {s : System}, Filed s.world.site →
      check turns finds s actions = true →
      Meets (System.step libraries) (fun s a =>
        Pool.Allowed (fun q _ => q.IsWorktree) (fun _ seen c v e =>
          Faultless libraries target c v e ∧
            (finds = true → Recognised libraries target strict seen c v)) s a ∧
          (turns = true → ∀ i e, a = .call i e → i + 1 = s.threads.length)) s
        (actions.map action)
  | [], _, _, _ => trivial
  | none :: actions, s, hs, h =>
      ⟨⟨rfl, fun _ _ _ hcall => by cases hcall⟩, meets turns finds strict actions hs h⟩
  | some (i, id) :: actions, s, hs, h => by
      obtain ⟨h, hrest⟩ := Bool.and_eq_true_iff.mp h
      obtain ⟨hturns, hcalled⟩ := Bool.and_eq_true_iff.mp h
      refine ⟨⟨fun t c next ht hcall => ?_, fun hturn j e heq => ?_⟩, meets turns finds strict actions ?_ hrest⟩
      · rw [ht] at hcalled
        dsimp only at hcalled
        rw [hcall] at hcalled
        obtain ⟨hfaultless, hfinds⟩ := Bool.and_eq_true_iff.mp hcalled
        refine ⟨faultless_sound hs hfaultless, fun hfind => recognised_sound strict ?_⟩
        rw [hfind] at hfinds
        exact hfinds
      · cases heq
        rw [hturn] at hturns
        exact of_decide_eq_true hturns
      · change Filed (s.step libraries (.call i (choice id))).world.site
        obtain heq | ⟨t, c, next, -, -, heq⟩ :=
          Pool.step_world (Request.program libraries) Workspace.handler s i (choice id)
        · exact heq ▸ hs
        · exact heq ▸ hs.handler c id

/-- The open has ended, after git has told its commit. -/
def ended (s : System) (i : Nat) : Bool :=
  match s.threads[i]? with
  | some t =>
      (match t.request with
        | .open _ _ options => options.mode = some .worktree
        | .get _ => false) &&
      t.rest.result?.isSome &&
      t.history.any fun
        | ⟨.revParse _ _, .ok stdout⟩ => isCommitId (trim stdout)
        | _ => false
  | none => false

theorem ended_sound {s : System} {i : Nat} (h : ended s i = true) :
    ∃ t outcome, s.threads[i]? = some t ∧ t.request.IsWorktree ∧ t.rest = .done outcome ∧
      Resolved t.history := by
  unfold ended at h
  split at h
  · rename_i t ht
    obtain ⟨h, hresolved⟩ := Bool.and_eq_true_iff.mp h
    obtain ⟨hworktree, hrest⟩ := Bool.and_eq_true_iff.mp h
    have hrequest : t.request.IsWorktree := by
      cases hq : t.request with
      | get id =>
          rw [hq] at hworktree
          cases hworktree
      | «open» registry path options =>
          rw [hq] at hworktree
          have hmode : options.mode = some .worktree := of_decide_eq_true hworktree
          exact hmode
    obtain ⟨event, hmem, hevent⟩ := List.any_eq_true.mp hresolved
    split at hevent
    · rename_i repoRoot revision stdout
      cases hdone : t.rest with
      | call c next =>
          rw [hdone] at hrest
          cases hrest
      | done outcome =>
          exact ⟨t, outcome, ht, hrequest, hdone, repoRoot, revision, stdout, hmem, hevent⟩
    · cases hevent
  · cases h

theorem filed : Filed system.world.site := ⟨.inl ⟨rfl, rfl⟩, rfl⟩

theorem untouched : target.Untouched libraries system.world where
  consistent := .migrated _ _ fun _ _ h => by cases h
  repository := rfl
  managed := rfl
  branch := rfl
  path root node h := by
    change (if join root (target.key libraries) = js "/r/.git" then .ok .directory
      else .error absent : Except Errno Node) = _ at h
    split at h
    · rename_i hpath
      have hbasename := basename_join plain_key root
      rw [hpath] at hbasename
      exact absurd hbasename (by decide)
    · cases h

end Sample

/-- The second open finds the directory that git has just made for the first,
before the worktree is listed. -/
theorem opens_coalesce_pathOccupied :
    let actions := [none, none] ++ List.replicate 13 (some (0, 'A')) ++
      List.replicate 13 (some (1, 'B'))
    Meets (System.step Sample.libraries) (Pool.Allowed (fun q _ => q.IsWorktree)
        fun _ _ c v e => Faultless Sample.libraries Sample.target c v e) Sample.system
      (actions.map Sample.action) ∧
    (System.run Sample.libraries Sample.system (actions.map Sample.action)).rejected 1
      = some .worktreePathOccupied := by
  intro actions
  have hmeets := Sample.meets false false True actions Sample.filed (by decide +kernel)
  exact ⟨Meets.mono (fun _ _ h => h.1.mono fun _ _ _ _ _ h => h.1) _ hmeets, by decide +kernel⟩

/-- Both opens run before the first creates the worktree; the second uses it. -/
theorem opens_coalesce_reused :
    let actions := [none, none] ++ List.replicate 6 (some (1, 'B')) ++
      List.replicate 20 (some (0, 'A')) ++ List.replicate 20 (some (1, 'B'))
    let s := System.run Sample.libraries Sample.system (actions.map Sample.action)
    s.opened 1 = some (js "A") ∧
    ∃ t outcome record m, s.threads[1]? = some t ∧ t.rest = .done outcome ∧
      outcome = .ok (some record) ∧
      s.world.db.managed.find? (Sample.target.key Sample.libraries) = some m ∧
      m.workspaceId = record.workspaceId := by
  intro actions s
  have hmeets := Sample.meets false true True actions Sample.filed (by decide +kernel)
  have hordinary : Meets (System.step Sample.libraries) (Pool.Allowed (fun q _ => q.IsWorktree)
      fun _ => Ordinary Sample.libraries Sample.target True) Sample.system
      (actions.map Sample.action) :=
    Meets.mono (fun _ _ h => h.1.mono fun _ _ _ _ _ h => ⟨h.1, h.2 rfl⟩) _ hmeets
  obtain ⟨t, outcome, ht, hq, hrest, hresolved⟩ :=
    Sample.ended_sound (s := s) (i := 1) (by decide +kernel)
  obtain ⟨record, m, houtcome, hm, hid, -⟩ :=
    (opens_coalesce Sample.libraries Sample.target Sample.system rfl Sample.untouched).1 _
      hordinary 1 t outcome ht hq hrest hresolved
  have hs : System.run Sample.libraries Sample.system (actions.map Sample.action) = s := rfl
  rw [hs] at hm
  exact ⟨by decide +kernel, t, outcome, record, m, ht, hrest, houtcome, hm, hid⟩

/-- The open before is killed when git has made the directory: its own directory
is taken for that of another. -/
theorem recovers_leftovers_pathOccupied :
    let actions := [none] ++ List.replicate 13 (some (0, 'A')) ++
      [none] ++ List.replicate 13 (some (1, 'B'))
    Meets (System.step Sample.libraries) (Pool.InTurn (fun q _ => q.IsWorktree)
        fun _ _ c v e => Faultless Sample.libraries Sample.target c v e) Sample.system
      (actions.map Sample.action) ∧
    (System.run Sample.libraries Sample.system (actions.map Sample.action)).rejected 1
      = some .worktreePathOccupied := by
  intro actions
  have hmeets := Sample.meets true false False actions Sample.filed (by decide +kernel)
  exact ⟨Meets.mono (fun _ _ h => ⟨h.1.mono fun _ _ _ _ _ h => h.1, h.2 rfl⟩) _ hmeets,
    by decide +kernel⟩

/-- The open before is killed when git has listed the worktree, which is then
registered. -/
theorem recovers_leftovers_listed :
    let actions := [none] ++ List.replicate 14 (some (0, 'A')) ++
      [none] ++ List.replicate 20 (some (1, 'B'))
    let s := System.run Sample.libraries Sample.system (actions.map Sample.action)
    s.opened 0 = none ∧ s.opened 1 = some (js "B") ∧
    ∃ t outcome, s.threads[1]? = some t ∧ t.rest = .done outcome ∧
      ((∃ record m, outcome = .ok (some record) ∧
        s.world.db.managed.find? (Sample.target.key Sample.libraries) = some m ∧
        m.workspaceId = record.workspaceId ∧
        m.source = (Sample.target.identity, Sample.target.commit)) ∨
      ∃ path message, outcome = .error (.registry ⟨.worktreeCleanupRequired, path, message⟩) ∧
        s.world.db.hasAction (Sample.target.key Sample.libraries) .cleanupIntent = true) := by
  intro actions s
  have hmeets := Sample.meets true true False actions Sample.filed (by decide +kernel)
  have hordinary : Meets (System.step Sample.libraries) (Pool.InTurn (fun q _ => q.IsWorktree)
      fun _ => Ordinary Sample.libraries Sample.target False) Sample.system
      (actions.map Sample.action) :=
    Meets.mono (fun _ _ h => ⟨h.1.mono fun _ _ _ _ _ h => ⟨h.1, h.2 rfl⟩, h.2 rfl⟩) _ hmeets
  obtain ⟨t, outcome, ht, hq, hrest, hresolved⟩ :=
    Sample.ended_sound (s := s) (i := 1) (by decide +kernel)
  exact ⟨by decide +kernel, by decide +kernel, t, outcome, ht, hrest,
    recovers_leftovers Sample.libraries Sample.target Sample.system rfl Sample.untouched _
      hordinary ht hq hrest hresolved⟩

end Benchhand.Workspace
