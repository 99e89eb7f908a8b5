/-
Benchhand.Workspace.RegistryTheorems — the registry keeps its tables.

`registry_invariant` is about any number of calls at once, each of which may
stop between two statements: the tables and the journal are `Consistent` in
every state, and a managed row is given up together with its event.
`handles_stable` says what a workspace id keeps for ever.
-/
import Benchhand.Workspace.DatabaseTheorems
import Benchhand.Workspace.System

namespace Benchhand.Workspace

open Text Js Posix Contracts Store Process

variable {α β : Type} {lib : Libraries} {registry : WorkspaceRegistry}

/-! ## Calls outside the database -/

/-- The call is no statement. -/
def Call.Outside : Call → Prop
  | .sql _ => False
  | _ => True

/-- The call asks the file system. -/
def Call.Asks : Call → Prop
  | .realpath _ => True
  | .stat _ => True
  | .lstat _ => True
  | _ => False

/-- The call makes nothing. -/
def Call.Reads : Call → Prop
  | .sql _ => False
  | .mkdir _ => False
  | .worktreeAdd _ _ => False
  | _ => True

theorem Call.Reads.outside {c : Call} (h : c.Reads) : c.Outside := by
  cases c with
  | sql s => exact h
  | _ => trivial

theorem Call.Asks.reads {c : Call} (h : c.Asks) : c.Reads := by
  cases c with
  | realpath path => trivial
  | stat path => trivial
  | lstat path => trivial
  | _ => exact h.elim

theorem answer_reads (e : Choice) {c : Call} (h : c.Reads) (w : World) : (w.answer e c).2 = w := by
  cases c with
  | sql s => exact h.elim
  | mkdir path => exact h.elim
  | worktreeAdd stage worktree => exact h.elim
  | _ => rfl

theorem answer_db (e : Choice) {c : Call} (h : c.Outside) (w : World) :
    (w.answer e c).2.db = w.db := by
  cases c with
  | sql s => exact h.elim
  | _ => rfl

theorem mapError_eq_error {ε ε' : Type} {r : Except ε α} {g : ε → ε'} {x : ε'}
    (h : r.mapError g = .error x) : ∃ y, r = .error y ∧ x = g y := by
  cases r with
  | ok a => cases h
  | error y => exact ⟨y, rfl, (Except.error.inj h).symm⟩

theorem mapError_eq_ok {ε ε' : Type} {r : Except ε α} {g : ε → ε'} {a : α}
    (h : r.mapError g = .ok a) : r = .ok a := by
  cases r with
  | ok b => exact congrArg Except.ok (Except.ok.inj h)
  | error y => cases h

theorem World.evolve_none {e : Choice} (h : e.evolved = none) (w : World) : w.evolve e = w := by
  unfold World.evolve
  rw [h]
  rfl

/-- A statement is carried out, or fails and changes nothing. -/
theorem handler_sql (e : Choice) (s : Statement) (w : World) :
    (∃ fault, handler e (.sql s) w = (.error fault, w.evolve e)) ∨
    handler e (.sql s) w = ((s.run w.db).1, { w.evolve e with db := (s.run w.db).2 }) := by
  unfold handler World.answer
  cases e.sqlFault with
  | some fault => exact .inl ⟨fault, rfl⟩
  | none => exact .inr rfl

/-- A statement that has given an answer was carried out. -/
theorem handler_sql_ok {e : Choice} {s : Statement} {w : World} {a : s.Result}
    (h : (handler e (.sql s) w).1 = .ok a) :
    (s.run w.db).1 = .ok a ∧
      (handler e (.sql s) w).2 = { w.evolve e with db := (s.run w.db).2 } := by
  obtain ⟨fault, hfault⟩ | hrun := handler_sql e s w
  · rw [hfault] at h
    cases h
  · rw [hrun] at h ⊢
    exact ⟨h, rfl⟩

/-- A statement of which only what it gives back matters. -/
theorem safe_sql {rules : Rules Call Answer World Choice} (hrules : rules.handler = handler)
    {choices : Choices Call Answer World Choice} {s : Statement} {seen : Trace Call Answer}
    {w : World} {ok : Trace Call Answer → s.Result → World → Prop}
    {err : Trace Call Answer → Thrown → World → Prop} (herr : ∀ seen x v, err seen (.error x) v)
    (hcall : ∀ v e, rules.inv v → choices seen (.sql s) v e →
      rules.inv (handler e (.sql s) v).2 ∧ rules.guar seen (.sql s) v (handler e (.sql s) v).2)
    (hok : ∀ v e a, rules.rely w v → rules.inv v → (s.run v.db).1 = .ok a →
      ∀ u, rules.rely { v.evolve e with db := (s.run v.db).2 } u → rules.inv u →
        ok (seen ++ [⟨.sql s, .ok a⟩]) a u) :
    Async.Safe rules choices (sql s) ok err seen w := by
  refine Async.safe_request fun v hv hinv e he => ?_
  rw [hrules]
  obtain ⟨hinv', hguar⟩ := hcall v e hinv he
  refine ⟨hinv', hguar, fun u hu hu' => ?_⟩
  cases hanswer : (handler e (.sql s) v).1 with
  | error x => exact herr _ x u
  | ok a =>
      obtain ⟨hrun, hworld⟩ := handler_sql_ok hanswer
      exact hok v e a hv hinv hrun u (hworld ▸ hu) hu'

/-- A check that needs no call. -/
theorem safe_ofExcept {rules : Rules Call Answer World Choice}
    {choices : Choices Call Answer World Choice} {seen : Trace Call Answer} {w : World}
    {r : Except JsError α} {ok : Trace Call Answer → α → World → Prop}
    {err : Trace Call Answer → Thrown → World → Prop} (herr : ∀ seen x v, err seen (.error x) v)
    (hok : ∀ a, r = .ok a → ∀ v, rules.rely w v → rules.inv v → ok seen a v) :
    Async.Safe rules choices (ofExcept r) ok err seen w := by
  cases r with
  | error e => exact fun v _ _ => herr seen e v
  | ok a => exact hok a rfl

/-- The tables after a call. -/
theorem handler_db (e : Choice) (c : Call) (w : World) :
    (handler e c w).2.db = w.db ∨ ∃ s, c = .sql s ∧ (handler e c w).2.db = (s.run w.db).2 := by
  cases c with
  | sql s =>
      obtain ⟨fault, h⟩ | h := handler_sql e s w
      · exact .inl (by rw [h]; rfl)
      · exact .inr ⟨s, rfl, by rw [h]⟩
  | _ => exact .inl rfl

section
variable {path : JsString}

theorem asks_realpath : Async.Uses Call.Asks (realpath path) := Async.uses_request trivial

theorem asks_stat : Async.Uses Call.Asks (stat path) := Async.uses_request trivial

theorem reads_stat : Async.Uses Call.Reads (stat path) := asks_stat.mono fun _ => Call.Asks.reads

theorem reads_now : Async.Uses Call.Reads now := Async.uses_request trivial

theorem reads_createWorkspaceId : Async.Uses Call.Reads createWorkspaceId :=
  Async.uses_request trivial

theorem asks_resolveWorkspaceDirectory :
    Async.Uses Call.Asks (resolveWorkspaceDirectory path) := by
  refine Async.uses_bind (Async.uses_mapError asks_realpath) fun canonicalPath => ?_
  refine Async.uses_bind (Async.uses_mapError asks_stat) fun stats => ?_
  split
  · exact Async.uses_throw
  · exact Async.uses_pure

theorem asks_findRepoRootIn :
    ∀ directories, Async.Uses Call.Asks (findRepoRootIn directories)
  | [] => Async.uses_pure
  | current :: rest => by
      refine Async.uses_tryCatch (Async.uses_bind (Async.uses_request trivial) fun _ =>
        Async.uses_pure) fun e => ?_
      split
      · exact asks_findRepoRootIn rest
      · split
        · exact Async.uses_pure
        · exact Async.uses_throw

theorem asks_inspect (identity : JsString) :
    Async.Uses Call.Asks (inspectPersistedWorkspacePath path identity) := by
  refine Async.uses_tryCatch (Async.uses_bind asks_stat fun stats => ?_) fun e => ?_
  · split
    · exact Async.uses_pure
    · split
      · exact Async.uses_pure
      · exact Async.uses_pure
  · split
    · exact Async.uses_pure
    · split
      · exact Async.uses_pure
      · exact Async.uses_throw

theorem asks_canonicalizeFrom :
    ∀ fuel cursor suffix, Async.Uses Call.Asks (canonicalizeFrom fuel cursor suffix) := by
  intro fuel
  induction fuel with
  | zero =>
      intro cursor suffix
      rw [canonicalizeFrom]
      refine Async.uses_tryCatch (Async.uses_bind asks_realpath fun canonical => ?_) fun e => ?_
      · split <;> exact Async.uses_pure
      · split <;> exact Async.uses_throw
  | succ fuel ih =>
      intro cursor suffix
      rw [canonicalizeFrom]
      refine Async.uses_tryCatch (Async.uses_bind asks_realpath fun canonical => ?_) fun e => ?_
      · split <;> exact Async.uses_pure
      · split
        · exact Async.uses_throw
        · exact ih _ _

theorem reads_resolveGitCommit (baseRef : JsString) :
    Async.Uses Call.Reads (resolveGitCommit path baseRef) := by
  unfold resolveGitCommit
  split
  · exact Async.uses_throw
  · refine Async.uses_bind (Async.uses_request trivial) fun stdout => ?_
    dsimp only
    split
    · exact Async.uses_throw
    · exact Async.uses_pure

theorem reads_resolveSource (baseRef : JsString) :
    Async.Uses Call.Reads (resolveSource registry path baseRef) := by
  refine Async.uses_bind (asks_resolveWorkspaceDirectory.mono fun _ => Call.Asks.reads)
    fun source => ?_
  refine Async.uses_bind ((asks_findRepoRootIn _).mono fun _ => Call.Asks.reads)
    fun repoRoot => ?_
  split
  · exact Async.uses_throw
  · split
    · exact Async.uses_throw
    · refine Async.uses_bind ((asks_canonicalizeFrom _ _ _).mono fun _ => Call.Asks.reads)
        fun managedRoot => ?_
      split
      · exact Async.uses_throw
      · refine Async.uses_bind reads_stat fun stats => ?_
        refine Async.uses_bind (Async.uses_mapError (reads_resolveGitCommit _)) fun commit => ?_
        exact Async.uses_pure

/-- The options that a registration is created with. -/
def ManagedWorktreeRegistration.locked (registration : ManagedWorktreeRegistration) :
    LockedWorktree where
  repoRoot := registration.repoRoot
  worktreePath := registration.worktreePath
  branch := registration.branch
  baseCommit := registration.baseCommit
  ownershipKey := registration.ownershipKey

theorem outside_createLockedWorktree (worktree : LockedWorktree) :
    Async.Uses Call.Outside (createLockedWorktree worktree) :=
  Async.uses_bind (Async.uses_request trivial) fun _ =>
    Async.uses_bind (Async.uses_request trivial) fun _ => Async.uses_request trivial

theorem asks_listsWorktree (registration : ManagedWorktreeRegistration) :
    ∀ worktrees, Async.Uses Call.Asks (listsWorktree registration path worktrees)
  | [] => Async.uses_pure
  | worktree :: worktrees => by
      refine Async.uses_bind (Async.uses_tryCatch (Async.uses_map asks_realpath) fun _ =>
        Async.uses_pure) fun canonical => ?_
      split
      · exact Async.uses_pure
      · exact asks_listsWorktree registration worktrees

end

/-! ## The invariant of the registry -/

/-- The journal only grows, whoever calls. -/
theorem handler_journal (e : Choice) (c : Call) (w : World) :
    w.db.journal <+: (handler e c w).2.db.journal := by
  obtain h | ⟨s, -, h⟩ := handler_db e c w
  · exact h ▸ List.prefix_rfl
  · exact h ▸ (s.run_change w.db).journal

/-- Registries rely on the journal, which nobody shortens. -/
def registryRules (lib : Libraries) : Rules Call Answer World Choice where
  handler := handler
  inv w := Consistent lib w.db
  rely v w := v.db.journal <+: w.db.journal
  guar _ _ v w := v.db.journal <+: w.db.journal
  refl _ := List.prefix_rfl
  trans := List.IsPrefix.trans

def Choices.any : Choices Call Answer World Choice := fun _ _ _ _ => True

/-- The journal has an intent to create the worktree of the key. -/
def World.Intended (key : JsString) (w : World) : Prop :=
  w.db.hasAction key .createIntent = true

theorem hasAction_later {db db' : Database} (h : db.journal <+: db'.journal) {key : JsString}
    {action : JournalAction} (hdb : db.hasAction key action = true) :
    db'.hasAction key action = true := by
  obtain ⟨e, he, hkey⟩ := hasAction_iff.mp hdb
  exact hasAction_iff.mpr ⟨e, h.subset he, hkey⟩

/-- From the world on, every call of the function keeps the invariant. -/
def Keeps (lib : Libraries) (p : Async α) (w : World) : Prop :=
  ∀ seen, Async.Safe (registryRules lib) Choices.any p (fun _ _ _ => True) (fun _ _ _ => True)
    seen w

/-- A call that is a proper statement, if it is one. -/
theorem handler_consistent {c : Call} {v : World} (e : Choice) (hv : Consistent lib v.db)
    (hc : ∀ s, c = .sql s → s.Proper lib v.db) : Consistent lib (handler e c v).2.db := by
  obtain h | ⟨s, hs, h⟩ := handler_db e c v
  · exact h ▸ hv
  · exact h ▸ hv.run (hc s hs)

/-- The calls that make nothing outside the database, of which the statements are
proper in every one. -/
def Call.Plain : Call → Prop
  | .sql (.register _) => False
  | .sql (.append event) => event.workspaceId = none
  | .mkdir _ => False
  | .worktreeAdd _ _ => False
  | _ => True

theorem Call.Plain.proper {c : Call} (hc : c.Plain) (v : World) (s : Statement)
    (hs : c = .sql s) : s.Proper lib v.db := by
  subst hs
  cases s with
  | register values => exact hc.elim
  | append event => exact hc
  | _ => trivial

theorem Call.Reads.plain {c : Call} (hc : c.Reads) : c.Plain := by
  cases c with
  | sql s => exact hc.elim
  | mkdir path => exact hc.elim
  | worktreeAdd stage worktree => exact hc.elim
  | _ => trivial

theorem keeps_plain {seen : Trace Call Answer} {c : Call} {v : World} {e : Choice} (hc : c.Plain)
    (hv : Consistent lib v.db) :
    Consistent lib (handler e c v).2.db ∧ (registryRules lib).guar seen c v (handler e c v).2 :=
  ⟨handler_consistent e hv (hc.proper v), handler_journal e c v⟩

namespace Keeps

variable {p : Async α} {f : α → Async β} {w : World} {key : JsString}

theorem of_plain (hp : Async.Uses Call.Plain p) : Keeps lib p w := fun _ =>
  Async.safe_of_uses (F := fun _ _ => True) (fun _ _ _ _ _ => trivial)
    (fun _ c v e hc hv _ _ => ⟨handler_consistent e hv (hc.proper v), handler_journal e c v,
      trivial⟩) hp trivial

theorem of_outside (hp : Async.Uses Call.Outside p) : Keeps lib p w := fun _ =>
  Async.safe_of_uses (F := fun _ _ => True) (fun _ _ _ _ _ => trivial)
    (fun _ c v e hc hv _ _ => ⟨handler_consistent e hv fun _ hs => (hs ▸ hc).elim,
      handler_journal e c v, trivial⟩) hp trivial

theorem of_reads (hp : Async.Uses Call.Reads p) : Keeps lib p w :=
  of_outside (hp.mono fun _ => Call.Reads.outside)

theorem pure (a : α) : Keeps lib (Pure.pure a) w := of_plain Async.uses_pure

theorem throw (e : Thrown) : Keeps lib (MonadExcept.throw e : Async α) w :=
  of_plain Async.uses_throw

/-- A sequence; nothing is known of the world in between. -/
theorem bind (hp : Keeps lib p w) (hf : ∀ a v, Keeps lib (f a) v) : Keeps lib (p >>= f) w :=
  fun seen => (hp seen).bind (fun _ a v _ _ => hf a v _) fun _ _ _ _ _ _ _ _ => trivial

/-- A sequence in which an intent stays. -/
theorem bind_intended (hp : Keeps lib p w) (hw : w.Intended key)
    (hf : ∀ a v, v.Intended key → Keeps lib (f a) v) : Keeps lib (p >>= f) w := fun seen =>
  ((hp seen).frame (F := fun _ v => v.Intended key) hw (fun _ _ _ h => hasAction_later h)
    fun _ _ _ _ _ h => hasAction_later h).bind (fun _ a v _ hv => hf a v hv.2 _)
      fun _ _ _ _ _ _ _ _ => trivial

theorem tryCatch {handle : Thrown → Async α} (hp : Keeps lib p w)
    (hf : ∀ e v, Keeps lib (handle e) v) : Keeps lib (tryCatch p handle) w := fun seen =>
  (hp seen).tryCatch (fun _ _ _ _ _ _ _ _ => trivial) fun _ e v _ _ => hf e v _

/-- A question to the journal that finds an intent. -/
theorem bind_hasIntent {f : Bool → Async β}
    (hf : ∀ b v, (b = true → v.Intended key) → Keeps lib (f b) v) :
    Keeps lib (hasWorktreeJournalAction key .createIntent >>= f) w := by
  refine fun seen => Async.Safe.bind (P := fun _ b v => b = true → v.Intended key)
    (X := fun _ _ _ => True)
    (safe_sql rfl (fun _ _ _ => trivial) (fun v e hv _ => ?_) fun v e a _ _ ha u hu _ hb => ?_)
    (fun _ b v _ hb => hf b v hb _) fun _ _ _ _ _ _ _ _ => trivial
  · exact keeps_plain (c := .sql (.selectEvent key .createIntent)) trivial hv
  · exact hasAction_later hu (Except.ok.inj ha ▸ hb)

/-- What follows an event that was written can rely on it. -/
theorem bind_intent {details : List (String × JsString)} {f : Unit → Async β}
    (hf : ∀ a v, v.Intended key → Keeps lib (f a) v) :
    Keeps lib (appendWorktreeJournal key .createIntent details >>= f) w := by
  refine fun seen => Async.Safe.bind (P := fun _ _ v => v.Intended key)
    (X := fun _ _ _ => True)
    (safe_sql rfl (fun _ _ _ => trivial) (fun v e hv _ => ?_) fun v e a _ _ ha u hu _ => ?_)
    (fun _ a v _ hb => hf a v hb _) fun _ _ _ _ _ _ _ _ => trivial
  · exact keeps_plain (c := .sql (.append ⟨key, none, .createIntent, details⟩)) rfl hv
  · exact hasAction_later hu (hasAction_iff.mpr ⟨_, List.mem_append_right _
      (List.mem_singleton_self _), rfl, rfl⟩)

end Keeps

/-! ### The functions that write -/

section
variable {registration : ManagedWorktreeRegistration} {w : World}

theorem plain_hasWorktreeJournalAction (key : JsString) (action : JournalAction) :
    Async.Uses Call.Plain (hasWorktreeJournalAction key action) := Async.uses_request trivial

theorem plain_appendWorktreeJournal (key : JsString) (action : JournalAction)
    (details : List (String × JsString)) :
    Async.Uses Call.Plain (appendWorktreeJournal key action details) := Async.uses_request rfl

theorem plain_selectManaged (key : JsString) : Async.Uses Call.Plain (sql (.selectManaged key)) :=
  Async.uses_request trivial

theorem plain_delay (milliseconds : Nat) : Async.Uses Call.Plain (delay milliseconds) :=
  Async.uses_request trivial

theorem plain_ofExcept {r : Except JsError α} : Async.Uses Call.Plain (ofExcept r) := trivial

theorem plain_read (id : JsString) : Async.Uses Call.Plain (read lib id) := by
  refine Async.uses_bind (Async.uses_request trivial) fun row => ?_
  split
  · exact Async.uses_pure
  · exact Async.uses_bind plain_ofExcept fun _ => Async.uses_pure

theorem plain_readRequired (id : JsString) : Async.Uses Call.Plain (readRequired lib id) := by
  refine Async.uses_bind (plain_read id) fun row => ?_
  split
  · exact Async.uses_throw
  · exact Async.uses_pure

theorem plain_inspect (path identity : JsString) :
    Async.Uses Call.Plain (inspectPersistedWorkspacePath path identity) :=
  (asks_inspect identity).mono fun _ h => h.reads.plain

theorem keeps_registerManagedWorktree (hnamed : registration.Named lib) {action : JournalAction}
    (haction : action = .created ∨ action = .reconciled)
    (hw : w.Intended registration.ownershipKey) :
    Keeps lib (registerManagedWorktree lib registry registration action) w := by
  refine Keeps.bind_intended (.of_reads
    (asks_resolveWorkspaceDirectory.mono fun _ => Call.Asks.reads)) hw
    fun directory v hv => ?_
  refine Keeps.bind_intended (.of_reads reads_now) hv fun timestamp v hv => ?_
  refine Keeps.bind_intended (.of_reads reads_createWorkspaceId) hv fun id v hv => ?_
  refine Keeps.bind (fun seen => Async.safe_request fun u hu hinv e _ => ?_)
    fun id v => .of_plain (plain_readRequired id)
  refine ⟨handler_consistent e hinv fun s hs => ?_, handler_journal e _ u, fun _ _ _ => ?_⟩
  · cases hs
    exact ⟨hnamed, haction, hasAction_later hu hv⟩
  · split <;> trivial

theorem keeps_tryReconcilePartialWorktree (hnamed : registration.Named lib) :
    Keeps lib (tryReconcilePartialWorktree lib registry registration) w := by
  refine Keeps.bind_hasIntent fun b v hb => ?_
  cases b with
  | false => exact .pure _
  | true =>
      refine Keeps.bind_intended (.of_reads (Async.uses_tryCatch
        (Async.uses_map (asks_realpath.mono fun _ => Call.Asks.reads)) fun _ =>
          Async.uses_pure)) (hb rfl) fun path v hv => ?_
      split
      · exact .pure _
      · refine Keeps.bind_intended (.of_outside (Async.uses_mapError (Async.uses_request trivial)))
          hv fun worktrees v hv => ?_
        refine Keeps.bind_intended (.of_reads
          ((asks_listsWorktree registration worktrees).mono fun _ => Call.Asks.reads)) hv
          fun listed v hv => ?_
        split
        · exact (keeps_registerManagedWorktree hnamed (.inr rfl) hv).bind fun _ _ => .pure _
        · exact .pure _

theorem keeps_waitForInflightWorktree (hnamed : registration.Named lib) :
    ∀ attempts w, Keeps lib (waitForInflightWorktree lib registry registration attempts) w
  | 0, _ => keeps_tryReconcilePartialWorktree hnamed
  | attempts + 1, _ => by
      refine (keeps_tryReconcilePartialWorktree hnamed).bind fun reconciled v => ?_
      split
      · exact .pure _
      · refine Keeps.bind (.of_plain (plain_hasWorktreeJournalAction _ _)) fun failed v => ?_
        split
        · exact .pure _
        · refine Keeps.bind (.of_plain (plain_hasWorktreeJournalAction _ _)) fun cleanup v => ?_
          split
          · exact .pure _
          · split
            · exact Keeps.bind (.of_plain (plain_delay _)) fun _ v =>
                keeps_waitForInflightWorktree hnamed attempts v
            · exact keeps_waitForInflightWorktree hnamed attempts v

theorem plain_openExisting (key path : JsString) (existing : ManagedWorktreeRow) :
    Async.Uses Call.Plain (openExisting lib registry key path existing) := by
  have hgiveUp : Async.Uses Call.Plain (openExisting.giveUp key existing) :=
    Async.uses_bind (Async.uses_request trivial) fun _ =>
      Async.uses_bind (Async.uses_request trivial) fun _ => Async.uses_throw
  unfold openExisting
  split
  · exact Async.uses_throw
  · refine Async.uses_bind plain_ofExcept fun id => Async.uses_bind (plain_read id) fun row => ?_
    split
    · refine Async.uses_bind (Async.uses_bind (Async.uses_request trivial) fun row => ?_)
        fun identity => Async.uses_bind (plain_inspect _ _) fun status => ?_
      · split
        · exact Async.uses_throw
        · exact Async.uses_pure
      · split
        · exact Async.uses_bind (Async.uses_request trivial) fun _ =>
            Async.uses_bind (Async.uses_request trivial) fun _ => plain_readRequired _
        · exact hgiveUp
    · exact hgiveUp

theorem keeps_openPath (hnamed : registration.Named lib) :
    Keeps lib (openPath lib registry registration) w := by
  refine Keeps.tryCatch (Keeps.bind (.of_outside (Async.uses_request trivial)) fun _ v => ?_)
    fun e v => ?_
  · refine (keeps_tryReconcilePartialWorktree hnamed).bind fun reconciled v => ?_
    split
    · exact .pure _
    · exact .throw _
  · split
    · exact .throw _
    · split
      · exact .throw _
      · exact .pure _

theorem plain_canStillBeInFlight (commit : JsString) :
    Async.Uses Call.Plain (canStillBeInFlight registration commit) := by
  unfold canStillBeInFlight
  split
  · exact Async.uses_pure
  · refine Async.uses_bind (Async.uses_request trivial) fun failed => ?_
    split
    · exact Async.uses_pure
    · exact Async.uses_bind (Async.uses_request trivial) fun cleanup => Async.uses_pure

theorem plain_requireBranchCleanup (commit : JsString) :
    Async.Uses Call.Plain (requireBranchCleanup registration commit) := by
  refine Async.uses_bind (Async.uses_request trivial) fun recorded => ?_
  dsimp only
  split
  · exact Async.uses_bind (plain_appendWorktreeJournal _ _ _) fun _ => Async.uses_throw
  · exact Async.uses_throw

theorem keeps_openOccupiedBranch (hnamed : registration.Named lib) (commit : JsString) :
    Keeps lib (openOccupiedBranch lib registry registration commit) w := by
  refine Keeps.bind (.of_plain (Async.uses_request trivial)) fun intended v => ?_
  split
  · refine Keeps.bind (.of_plain (plain_canStillBeInFlight commit)) fun inFlight v => ?_
    split
    · refine (keeps_waitForInflightWorktree hnamed _ _).bind fun reconciled v => ?_
      split
      · exact .pure _
      · exact .of_plain (plain_requireBranchCleanup commit)
    · exact .of_plain (plain_requireBranchCleanup commit)
  · exact .throw _

theorem keeps_openBranch (hnamed : registration.Named lib) :
    Keeps lib (openBranch lib registry registration) w := by
  refine Keeps.bind (.of_outside (Async.uses_mapError (Async.uses_request trivial)))
    fun commit v => ?_
  split
  · exact (keeps_openOccupiedBranch hnamed _).bind fun _ _ => .pure _
  · exact .pure _

theorem keeps_createWorktree (hnamed : registration.Named lib) :
    Keeps lib (createWorktree lib registry registration) w := by
  refine Keeps.bind_intent fun _ v hv => Keeps.bind_intended (Keeps.tryCatch
    (Keeps.bind (.of_outside (outside_createLockedWorktree _)) fun _ v => .pure _) fun e v => ?_)
    hv fun reconciled v hv => ?_
  · refine (keeps_tryReconcilePartialWorktree hnamed).bind fun reconciled v => ?_
    split
    · exact .pure _
    · exact Keeps.bind (.of_plain (plain_appendWorktreeJournal _ _ _)) fun _ v => .throw _
  · split
    · exact .pure _
    · exact keeps_registerManagedWorktree hnamed (.inl rfl) hv

theorem WorktreeSource.named (source : WorktreeSource) : (source.registration lib).Named lib :=
  ⟨rfl, rfl⟩

theorem keeps_openSource (source : WorktreeSource) :
    Keeps lib (openSource lib registry source) w := by
  refine Keeps.bind (.of_plain (plain_selectManaged _)) fun existing v => ?_
  split
  · exact .of_plain (plain_openExisting _ _ _)
  · refine Keeps.bind (.of_outside (Async.uses_request trivial)) fun _ v => ?_
    refine (keeps_openPath source.named).bind fun reconciled v => ?_
    split
    · exact .pure _
    · refine (keeps_openBranch source.named).bind fun reconciled v => ?_
      split
      · exact .pure _
      · exact keeps_createWorktree source.named

theorem plain_openCheckout (path : JsString) :
    Async.Uses Call.Plain (openCheckout lib registry path) := by
  refine Async.uses_bind (asks_resolveWorkspaceDirectory.mono fun _ h => h.reads.plain)
    fun directory => ?_
  refine Async.uses_bind ((asks_findRepoRootIn _).mono fun _ h => h.reads.plain)
    fun repoRoot => ?_
  exact Async.uses_bind (Async.uses_request trivial) fun _ =>
    Async.uses_bind (Async.uses_request trivial) fun _ =>
      Async.uses_bind (Async.uses_request trivial) fun _ => plain_ofExcept

theorem plain_get (id : JsString) : Async.Uses Call.Plain (Workspace.get lib id) := by
  refine Async.uses_bind (plain_read id) fun existing => ?_
  split
  · exact Async.uses_pure
  · refine Async.uses_bind (Async.uses_request trivial) fun row => ?_
    split
    · exact Async.uses_pure
    · refine Async.uses_bind (plain_inspect _ _) fun status => ?_
      split
      · refine Async.uses_bind (Async.uses_request trivial) fun changes => ?_
        split
        · exact Async.uses_throw
        · exact plain_read id
      · exact Async.uses_pure

theorem keeps_open (path : JsString) (options : WorkspaceOpenOptions) :
    Keeps lib (registry.open lib path options) w := by
  unfold WorkspaceRegistry.open
  split
  · exact .throw _
  · split
    · exact Keeps.bind (.of_reads (reads_resolveSource _)) fun source v =>
        keeps_openSource source
    · split
      · exact .throw _
      · exact .of_plain (plain_openCheckout path)

end

/-- Every request keeps the invariant. -/
theorem safe_program (q : Request) (w : World) :
    (q.program lib).Safe (registryRules lib) Choices.any (fun _ _ _ => True) [] w := by
  cases q with
  | «open» registry path options =>
      have hopen : Keeps lib (some <$> registry.open lib path options) w := fun seen =>
        (keeps_open path options seen).map (fun _ _ _ _ _ _ _ _ => trivial)
          fun _ _ _ _ _ _ _ _ => trivial
      exact Prog.Safe.mono (fun _ _ _ _ _ => trivial) (hopen [])
  | get id =>
      have hget : Keeps lib (Workspace.get lib id) w := .of_plain (plain_get id)
      exact Prog.Safe.mono (fun _ _ _ _ _ => trivial) (hget [])

/-- Every step is possible. -/
theorem meets_any (actions : List (Pool.Action Request Choice)) (s : System) :
    Meets (System.step lib) (Pool.Allowed (fun _ _ => True) fun _ => Choices.any) s actions :=
  Meets.of_forall (Pool.allowed_of_forall (fun _ _ => trivial) fun _ _ _ _ _ => trivial) actions s

/-- Whatever is called, on any number of connections, and wherever it stops. -/
theorem consistent_run (actions : List (Pool.Action Request Choice)) {s : System}
    (hdb : Consistent lib s.world.db) (hthreads : s.threads = []) :
    Consistent lib (s.run lib actions).world.db := by
  have hsound : Pool.Sound (registryRules lib) (fun _ => Choices.any) (fun _ _ _ _ => True) s :=
    ⟨hdb, fun i t ht => by rw [hthreads] at ht; cases ht⟩
  exact (hsound.run (fun _ _ _ _ h => h) (fun q w _ _ => safe_program q w) actions
    (meets_any actions s)).world

/-- The tables after a step of a pool: unchanged, or changed by one statement. -/
theorem step_db (s : System) (a : Pool.Action Request Choice) :
    (s.step lib a).world.db = s.world.db ∨
    ∃ statement : Statement, (s.step lib a).world.db = (statement.run s.world.db).2 := by
  cases a with
  | start q => exact .inl rfl
  | call i e =>
      obtain heq | ⟨t, c, next, -, -, heq⟩ := Pool.step_world (Request.program lib) handler s i e
      · exact .inl (congrArg World.db heq)
      · obtain hdb | ⟨statement, -, hdb⟩ := handler_db e c s.world
        · exact .inl ((congrArg World.db heq).trans hdb)
        · exact .inr ⟨statement, (congrArg World.db heq).trans hdb⟩

/-- In every state that calls of registries can reach from the tables of the
migrations: managed worktrees and their workspaces belong together one to one,
no two have the same key, source, branch or path, each was registered once and
after an intent; and the next step may only give one up, with its event. -/
theorem registry_invariant (lib : Libraries) (checkouts : Table JsString WorkspaceRow)
    (hunique : checkouts.UniqueOn WorkspaceRow.handle)
    (hcheckout : ∀ id row, checkouts.find? id = some row → row.mode = .checkout) (site : Site)
    (actions : List (Pool.Action Request Choice)) :
    let s := System.run lib ⟨⟨Database.migrated checkouts hunique, site⟩, []⟩ actions
    let db := s.world.db
    Consistent lib db ∧
    (∀ id row, db.workspaces.find? id = some row → row.mode = .worktree →
      ∃! key, ∃ m, db.managed.find? key = some m ∧ m.workspaceId = id) ∧
    db.managed.UniqueOn ManagedWorktreeRow.source ∧
    db.managed.UniqueOn ManagedWorktreeRow.branch ∧
    db.managed.UniqueOn ManagedWorktreeRow.worktreePath ∧
    ∀ a key m, db.managed.find? key = some m →
      (s.step lib a).world.db.managed.find? key = some m ∨
      ∃ id timestamp, m.status = .active ∧
        (s.step lib a).world.db.managed.find? key = some (m.requireCleanup timestamp) ∧
        (s.step lib a).world.db.journal = db.journal ++ [cleanupEvent key id] := by
  intro s db
  have hdb : Consistent lib db :=
    consistent_run actions (Consistent.migrated lib hunique hcheckout) rfl
  refine ⟨hdb, fun id row hrow hmode => ?_, db.source_unique, db.branch_unique, db.path_unique,
    fun a key m hm => ?_⟩
  · obtain ⟨key, m, hm, hid⟩ := hdb.managed id row hrow hmode
    refine ⟨key, ⟨m, hm, hid⟩, fun key' hkey' => ?_⟩
    obtain ⟨m', hm', hid'⟩ := hkey'
    exact db.workspaceId_unique key' key m' m hm' hm (hid'.trans hid.symm)
  · obtain heq | ⟨statement, heq⟩ := step_db s a
    · exact .inl (heq ▸ hm)
    · rw [heq]
      exact (statement.run_change db).managed hm

/-- A worktree that is opened is a managed row of a consistent database. -/
theorem registry_invariant_opened :
    let s := System.run Sample.libraries Sample.system
      (Sample.worktree :: Sample.calls 0 'A' 20)
    (s.world.db.managed.find? (js "k")).map ManagedWorktreeRow.workspaceId = some (js "A") ∧
      Consistent Sample.libraries s.world.db :=
  ⟨by decide +kernel, (registry_invariant Sample.libraries .empty .empty nofun Sample.site
    (Sample.worktree :: Sample.calls 0 'A' 20)).1⟩

end Benchhand.Workspace
