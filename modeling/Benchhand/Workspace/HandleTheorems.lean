/-
Benchhand.Workspace.HandleTheorems — workspace handles are stable.

A row of workspace_registry keeps its path, identity, mode and creation time
whatever is called (`Later`). `checkout_rules` follow what a checkout has
resolved to from its first two calls to the row it ends with, and `get` is
followed while no other registry runs.
-/
import Benchhand.Workspace.RegistryTheorems

namespace Benchhand.Workspace

open Text Js Posix Contracts Store Process

variable {α β : Type} {lib : Libraries} {registry : WorkspaceRegistry}

/-! ## Rows over a run -/

/-- Every row is there later, in a later form. -/
def RowsLater (db db' : Database) : Prop :=
  ∀ id row, db.workspaces.find? id = some row →
    ∃ row', db'.workspaces.find? id = some row' ∧ row.Later row'

theorem RowsLater.refl (db : Database) : RowsLater db db := fun _ row hrow =>
  ⟨row, hrow, .refl row⟩

theorem RowsLater.trans {db db' db'' : Database} (h : RowsLater db db') (h' : RowsLater db' db'') :
    RowsLater db db'' := fun id row hrow =>
  let ⟨row', hrow', hlater⟩ := h id row hrow
  let ⟨row'', hrow'', hlater'⟩ := h' id row' hrow'
  ⟨row'', hrow'', hlater.trans hlater'⟩

theorem handler_rowsLater (e : Choice) (c : Call) (w : World) :
    RowsLater w.db (handler e c w).2.db := by
  obtain h | ⟨s, -, h⟩ := handler_db e c w
  · exact h ▸ .refl _
  · exact h ▸ fun _ _ hrow => (s.run_change w.db).workspace hrow

theorem run_rowsLater (lib : Libraries) (s : System) (actions : List (Pool.Action Request Choice)) :
    RowsLater s.world.db (s.run lib actions).world.db := by
  refine runFrom_invariant (I := fun s' : System => RowsLater s.world.db s'.world.db)
    (fun s' a h => ?_) actions (.refl _)
  obtain heq | ⟨statement, heq⟩ := step_db s' a
  · exact heq ▸ h
  · rw [heq]
    exact h.trans fun _ _ hrow => (statement.run_change s'.world.db).workspace hrow

/-! ## What a checkout has resolved to -/

/-- The canonical path and the identity that the first two calls have found. -/
def resolvedTo : Trace Call Answer → Option (JsString × JsString)
  | ⟨.realpath _, .ok canonicalPath⟩ :: ⟨.stat _, .ok stats⟩ :: _ =>
      some (canonicalPath, filesystemIdentityFromStats stats)
  | _ => none

theorem resolvedTo_append {seen : Trace Call Answer} {x : JsString × JsString}
    (h : resolvedTo seen = some x) (more : Trace Call Answer) :
    resolvedTo (seen ++ more) = some x := by
  unfold resolvedTo at h
  split at h
  · exact h
  · cases h

/-- Others may do to a row what its later forms allow. -/
def handleRules : Rules Call Answer World Choice where
  handler := handler
  inv _ := True
  rely v w := RowsLater v.db w.db
  guar _ _ v w := RowsLater v.db w.db
  refl w := .refl w.db
  trans := RowsLater.trans

theorem handleRules_call (seen : Trace Call Answer) (c : Call) (v : World) (e : Choice) :
    handleRules.inv (handleRules.handler e c v).2 ∧
      handleRules.guar seen c v (handleRules.handler e c v).2 :=
  ⟨trivial, handler_rowsLater e c v⟩

/-- Nothing has to be known of a function for it to be safe. -/
theorem safe_any (p : Async α) {seen : Trace Call Answer} {w : World} :
    Async.Safe handleRules Choices.any p (fun _ _ _ => True) (fun _ _ _ => True) seen w :=
  have huses : Async.Uses (fun _ => True) p := Prog.uses_any p.run
  Async.safe_of_uses (F := fun _ _ => True) (fun _ _ _ _ _ => trivial)
    (fun _ c v e _ _ _ _ => ⟨trivial, handler_rowsLater e c v, trivial⟩) huses trivial

theorem safe_resolveWorkspaceDirectory (path : JsString) (w : World) :
    Async.Safe handleRules Choices.any (resolveWorkspaceDirectory path)
      (fun seen directory _ => resolvedTo seen = some directory) (fun _ _ _ => True) [] w := by
  refine Async.Safe.bind
    (P := fun seen canonicalPath _ => seen = [⟨.realpath path, .ok canonicalPath⟩])
    (X := fun _ _ _ => True) (Async.Safe.mapError
      (Async.safe_answer fun v e _ _ => handleRules_call _ _ v e) ?_ fun _ _ _ _ _ _ _ _ => trivial)
    ?_ fun _ _ _ _ _ _ _ _ => trivial
  · intro seen canonicalPath _ _ hanswer _ _ _
    obtain ⟨r, rfl, hr⟩ := hanswer
    cases r with
    | error e => cases hr
    | ok path => cases hr; rfl
  · intro seen canonicalPath w _ hseen
    subst hseen
    refine Async.Safe.bind (P := fun seen stats _ =>
        seen = [⟨.realpath path, .ok canonicalPath⟩, ⟨.stat canonicalPath, .ok stats⟩])
      (X := fun _ _ _ => True) (Async.Safe.mapError
        (Async.safe_answer fun v e _ _ => handleRules_call _ _ v e) ?_
          fun _ _ _ _ _ _ _ _ => trivial) ?_ fun _ _ _ _ _ _ _ _ => trivial
    · intro seen stats _ _ hanswer _ _ _
      obtain ⟨r, rfl, hr⟩ := hanswer
      cases r with
      | error e => cases hr
      | ok stats => cases hr; rfl
    · intro seen stats w _ hseen
      subst hseen
      split
      · exact Async.safe_throw fun _ _ _ => trivial
      · exact Async.safe_pure fun _ _ _ => rfl

/-- What a checkout ends with: the row of its record has the path and the
identity that it has resolved to. -/
def Opened (seen : Trace Call Answer) (workspaceId : JsString) (w : World) : Prop :=
  ∃ directory row, resolvedTo seen = some directory ∧
    w.db.workspaces.find? workspaceId = some row ∧
    row.handle = (directory.1, directory.2, .checkout)

theorem Opened.later {seen : Trace Call Answer} {workspaceId : JsString} {v w : World}
    (h : Opened seen workspaceId v) (hw : RowsLater v.db w.db) : Opened seen workspaceId w := by
  obtain ⟨directory, row, hdirectory, hrow, hhandle⟩ := h
  obtain ⟨row', hrow', hlater⟩ := hw _ row hrow
  exact ⟨directory, row', hdirectory, hrow', hlater.handle.trans hhandle⟩

theorem safe_openCheckout (path : JsString) (w : World) :
    Async.Safe handleRules Choices.any (openCheckout lib registry path)
      (fun seen record w => Opened seen record.workspaceId w) (fun _ _ _ => True) [] w := by
  have hstays : ∀ directory (seen : Trace Call Answer) (c : Call) (r : Answer c) (v w : World),
      handleRules.guar seen c v w → resolvedTo seen = some directory →
      resolvedTo (seen ++ [⟨c, r⟩]) = some directory :=
    fun directory seen c r v w _ h => resolvedTo_append h _
  refine (safe_resolveWorkspaceDirectory _ w).bind (fun seen directory w _ hseen => ?_)
    fun _ _ _ _ _ _ _ _ => trivial
  obtain ⟨canonicalPath, filesystemIdentity⟩ := directory
  -- the calls before the upsert leave what was resolved
  refine ((safe_any (findRepoRoot canonicalPath)).frame
    (F := fun seen _ => resolvedTo seen = some (canonicalPath, filesystemIdentity)) hseen
    (fun _ _ _ _ h => h) (hstays _)).bind (fun seen repoRoot w _ hseen => ?_)
    fun _ _ _ _ _ _ _ _ => trivial
  refine ((safe_any now).frame
    (F := fun seen _ => resolvedTo seen = some (canonicalPath, filesystemIdentity)) hseen.2
    (fun _ _ _ _ h => h) (hstays _)).bind (fun seen timestamp w _ hseen => ?_)
    fun _ _ _ _ _ _ _ _ => trivial
  refine ((safe_any createWorkspaceId).frame
    (F := fun seen _ => resolvedTo seen = some (canonicalPath, filesystemIdentity)) hseen.2
    (fun _ _ _ _ h => h) (hstays _)).bind (fun seen candidateId w _ hseen => ?_)
    fun _ _ _ _ _ _ _ _ => trivial
  refine Async.Safe.bind (P := fun seen (row : JsString × WorkspaceRow) w =>
      Opened seen row.1 w) (X := fun _ _ _ => True)
    (safe_sql rfl (fun _ _ _ => trivial) (fun v e _ _ => handleRules_call _ _ v e)
      fun v e row _ _ hrow u hu _ => ?_)
    (fun seen row w _ hrow => ?_) fun _ _ _ _ _ _ _ _ => trivial
  · refine Opened.later ⟨_, row.2, resolvedTo_append hseen.2 _, ?_⟩ hu
    exact Statement.run_upsertCheckout hrow
  · refine safe_ofExcept (fun _ _ _ => trivial) fun record hrecord u hu _ => Opened.later ?_ hu
    rw [parseWorkspaceRecord_eq_ok hrecord]
    exact hrow

/-! ## get -/

/-- Nobody else calls. -/
def aloneRules : Rules Call Answer World Choice where
  handler := handler
  inv _ := True
  rely v w := v = w
  guar _ _ _ _ := True
  refl _ := rfl
  trans := Eq.trans

variable (lib) in
/-- A record of the row passes its check. -/
def WorkspaceRow.Readable (row : WorkspaceRow) (id : JsString) : Prop :=
  (row.fields id).check lib.lengths = true

/-- A readable row is read. -/
theorem rowToWorkspaceRecord_eq_ok {row : WorkspaceRow} {id : JsString}
    (h : row.Readable lib id) : rowToWorkspaceRecord lib id row = .ok (row.fields id) := by
  unfold rowToWorkspaceRecord parseWorkspaceRecord
  exact if_pos h

theorem readable_of_eq_ok {row : WorkspaceRow} {id : JsString} {record : WorkspaceRecord}
    (h : rowToWorkspaceRecord lib id row = .ok record) : row.Readable lib id := by
  unfold rowToWorkspaceRecord parseWorkspaceRecord at h
  split at h
  · rename_i hcheck
    exact hcheck
  · cases h

theorem WorkspaceRow.Readable.setStatus {row : WorkspaceRow} {id : JsString}
    (h : row.Readable lib id) (status : WorkspaceStatus) :
    (row.setStatus status).Readable lib id := by
  unfold Readable at h ⊢
  rw [WorkspaceRecord.check_iff] at h ⊢
  obtain ⟨h₁, h₂, h₃, h₄, h₅, h₆, h₇, h₈, h₉, h₁₀, h₁₁, -⟩ := h
  exact ⟨h₁, h₂, h₃, h₄, h₅, h₆, h₇, h₈, h₉, h₁₀, h₁₁, Nat.succ_pos _⟩

/-- A call that fails, and not in one of the ways that a status stands for. -/
def Call.Failed : (c : Call) → Answer c → Prop
  | .sql _, .error _ => True
  | .stat _, .error e =>
      e.code ∉ [js "ENOENT", js "ENOTDIR", js "EACCES", js "EPERM"]
  | _, _ => False

def CallFailed (seen : Trace Call Answer) : Prop := ∃ x ∈ seen, x.1.Failed x.2

variable (lib) in
/-- What a `get` can be rejected for. -/
def Rejected (db : Database) (id : JsString) (seen : Trace Call Answer) : Prop :=
  CallFailed seen ∨ ∃ row, db.workspaces.find? id = some row ∧ ¬ row.Readable lib id

section
variable {w : World} {seen : Trace Call Answer} {id : JsString}

/-- What was answered about a path says whether it is the directory that a row
has recorded. -/
def Available (row : WorkspaceRow) (answer : Answer (.stat row.canonicalPath)) : Prop :=
  ∃ stats, answer = .ok stats ∧ stats.isDirectory = true ∧
    filesystemIdentityFromStats stats = row.filesystemIdentity

/-- The status is the one that the file system had when it was asked. -/
def Inspected (seen : Trace Call Answer) (row : WorkspaceRow) (status : WorkspaceStatus) : Prop :=
  ∃ answer, (⟨.stat row.canonicalPath, answer⟩ : (c : Call) × Answer c) ∈ seen ∧
    (status = .available ↔ Available row answer)

theorem safe_sqlAlone (s : Statement) :
    Async.Safe aloneRules Choices.any (sql s)
      (fun seen' a v => seen' = seen ++ [⟨.sql s, .ok a⟩] ∧ (s.run w.db).1 = .ok a ∧
        v.db = (s.run w.db).2)
      (fun seen' _ _ => CallFailed seen') seen w := by
  refine Async.safe_request fun v hv _ e _ => ⟨trivial, trivial, fun u hu _ => ?_⟩
  obtain rfl : w = v := hv
  obtain rfl : _ = u := hu
  have hhandler : aloneRules.handler = handler := rfl
  rw [hhandler]
  cases hanswer : (handler e (.sql s) w).1 with
  | error x => exact ⟨_, List.mem_append_right _ (List.mem_singleton_self _), trivial⟩
  | ok a =>
      obtain ⟨hrun, hworld⟩ := handler_sql_ok hanswer
      exact ⟨rfl, hrun, congrArg World.db hworld⟩

theorem safe_selectWorkspace :
    Async.Safe aloneRules Choices.any (sql (.selectWorkspace id))
      (fun seen' (row : Option WorkspaceRow) v => v.db = w.db ∧ seen <+: seen' ∧
        row = w.db.workspaces.find? id) (fun seen' _ _ => CallFailed seen') seen w := by
  refine (safe_sqlAlone _).mono (fun seen' row v _ h => ?_) fun _ _ _ _ h => h
  obtain ⟨rfl, hrow, hdb⟩ := h
  exact ⟨hdb, List.prefix_append _ _, (Except.ok.inj hrow).symm⟩

theorem safe_read :
    Async.Safe aloneRules Choices.any (read lib id)
      (fun seen' record v => v.db = w.db ∧ seen <+: seen' ∧
        record = (w.db.workspaces.find? id).map (WorkspaceRow.fields id))
      (fun seen' _ _ => Rejected lib w.db id seen') seen w := by
  refine safe_selectWorkspace.bind (fun seen' row v _ hrow => ?_) fun _ _ _ _ h _ _ _ => .inl h
  obtain ⟨hdb, hseen, hfind⟩ := hrow
  split
  · refine Async.safe_pure fun u hu _ => ?_
    obtain rfl : v = u := hu
    exact ⟨hdb, hseen, hfind ▸ rfl⟩
  · rename_i row
    by_cases hreadable : row.Readable lib id
    · rw [rowToWorkspaceRecord_eq_ok hreadable]
      refine Async.safe_pure fun u hu _ => ?_
      obtain rfl : v = u := hu
      exact ⟨hdb, hseen, hfind ▸ rfl⟩
    · refine Async.Safe.bind (X := fun _ _ _ => True) (P := fun _ _ _ => False)
        (safe_ofExcept (fun _ _ _ => trivial) fun record hrecord _ _ _ => ?_)
        (fun _ _ _ _ h => h.elim) fun _ _ _ _ _ _ _ _ => .inr ⟨row, hfind.symm, hreadable⟩
      exact hreadable (readable_of_eq_ok hrecord)

/-- A call outside the database, and what it was answered. -/
theorem safe_outsideCall {c : Call} (hc : c.Outside) {answer : Answer c → Except Thrown α} :
    Async.Safe aloneRules Choices.any (.request c answer)
      (fun seen' a v => v.db = w.db ∧ ∃ r, seen' = seen ++ [⟨c, r⟩] ∧ answer r = .ok a)
      (fun seen' x v => v.db = w.db ∧ ∃ r, seen' = seen ++ [⟨c, r⟩] ∧ answer r = .error x)
      seen w := by
  refine Async.safe_request fun v hv _ e _ => ⟨trivial, trivial, fun u hu _ => ?_⟩
  obtain rfl : w = v := hv
  obtain rfl : _ = u := hu
  have hdb : (handler e c w).2.db = w.db := answer_db e hc _
  split
  · rename_i a ha
    exact ⟨hdb, _, rfl, ha⟩
  · rename_i x hx
    exact ⟨hdb, _, rfl, hx⟩

/-- The two ways a status is found: from the stats of the path, and from the
error of asking for them. -/
theorem inspected_ok {row : WorkspaceRow} {stats : BigIntStats} {status : WorkspaceStatus}
    (hmem : (⟨.stat row.canonicalPath, .ok stats⟩ : (c : Call) × Answer c) ∈ seen)
    (hstatus : status = .available ↔ stats.isDirectory = true ∧
      filesystemIdentityFromStats stats = row.filesystemIdentity) : Inspected seen row status := by
  refine ⟨_, hmem, hstatus.trans ⟨fun h => ⟨stats, rfl, h⟩, fun h => ?_⟩⟩
  obtain ⟨stats', hok, h⟩ := h
  obtain rfl := Except.ok.inj hok
  exact h

theorem inspected_error {row : WorkspaceRow} {x : Errno} {status : WorkspaceStatus}
    (hmem : (⟨.stat row.canonicalPath, .error x⟩ : (c : Call) × Answer c) ∈ seen)
    (hstatus : status ≠ .available) : Inspected seen row status := by
  refine ⟨_, hmem, fun h => absurd h hstatus, fun h => ?_⟩
  obtain ⟨stats, hok, -⟩ := h
  cases hok

theorem safe_inspect (row : WorkspaceRow) :
    Async.Safe aloneRules Choices.any
      (inspectPersistedWorkspacePath row.canonicalPath row.filesystemIdentity)
      (fun seen' status v => v.db = w.db ∧ Inspected seen' row status)
      (fun seen' _ _ => CallFailed seen') seen w := by
  have hpure : ∀ {s : Trace Call Answer} {v : World} {status : WorkspaceStatus}
      {err : Trace Call Answer → Thrown → World → Prop}, v.db = w.db → Inspected s row status →
      Async.Safe aloneRules Choices.any (pure status)
        (fun seen' status v => v.db = w.db ∧ Inspected seen' row status) err s v := by
    intro s v status err hdb hinspected
    refine Async.safe_pure fun u hu _ => ?_
    obtain rfl : v = u := hu
    exact ⟨hdb, hinspected⟩
  refine Async.Safe.tryCatch
    (P := fun seen' status v => v.db = w.db ∧ Inspected seen' row status)
    (X := fun seen' e v => v.db = w.db ∧ ∃ x : Errno,
      seen' = seen ++ [⟨.stat row.canonicalPath, .error x⟩] ∧ e = .errno x)
    ((safe_outsideCall (c := .stat row.canonicalPath) trivial).bind
      (fun seen' stats v _ hstats => ?_) ?_) ?_ fun seen' e v _ he => ?_
  · obtain ⟨hdb, r, rfl, hr⟩ := hstats
    cases r with
    | error x => cases hr
    | ok stats' =>
        obtain rfl := Except.ok.inj hr
        have hmem := List.mem_append_right seen (List.mem_singleton_self
          (⟨.stat row.canonicalPath, .ok stats'⟩ : (c : Call) × Answer c))
        split
        · rename_i hdirectory
          exact hpure hdb (inspected_ok hmem (by simp_all))
        · rename_i hdirectory
          split
          · rename_i hidentity
            exact hpure hdb (inspected_ok hmem (by simp_all))
          · rename_i hidentity
            exact hpure hdb (inspected_ok hmem (by simp_all))
  · intro seen' x v _ h u hu _
    obtain rfl : v = u := hu
    obtain ⟨hdb, r, hseen, hr⟩ := h
    cases r with
    | error x' => exact ⟨hdb, x', hseen, (Except.error.inj hr).symm⟩
    | ok stats => cases hr
  · intro seen' status v _ h u hu _
    obtain rfl : v = u := hu
    exact h
  · obtain ⟨hdb, x, rfl, rfl⟩ := he
    have hmem := List.mem_append_right seen (List.mem_singleton_self
      (⟨.stat row.canonicalPath, .error x⟩ : (c : Call) × Answer c))
    split
    · exact hpure hdb (inspected_error hmem nofun)
    · rename_i hmissing
      split
      · exact hpure hdb (inspected_error hmem nofun)
      · rename_i hinaccessible
        refine Async.safe_throw fun _ _ _ => ⟨_, hmem, ?_⟩
        simp only [hasErrnoCode, Bool.or_eq_true, beq_iff_eq, not_or] at hmissing hinaccessible
        simp [Call.Failed, hmissing, hinaccessible]

theorem safe_setStatus {row : WorkspaceRow} {status : WorkspaceStatus}
    (hrow : w.db.workspaces.find? id = some row) :
    Async.Safe aloneRules Choices.any (sql (.setStatus id status))
      (fun seen' (changes : Nat) v => seen <+: seen' ∧ changes = 1 ∧
        v.db.workspaces.find? id = some (row.setStatus status))
      (fun seen' _ _ => CallFailed seen') seen w := by
  refine (safe_sqlAlone _).mono (fun seen' changes v _ h => ?_) fun _ _ _ _ h => h
  obtain ⟨rfl, hchanges, hdb⟩ := h
  refine ⟨List.prefix_append _ _, ?_, ?_⟩
  · rw [← Except.ok.inj hchanges]
    change (w.db.workspaces.updateKey id (fun _ => true) (WorkspaceRow.setStatus status)).2 = 1
    rw [Table.changes_updateKey, hrow]
    rfl
  · rw [hdb]
    change (w.db.updateWorkspace id (WorkspaceRow.setStatus status)
      (fun _ => rfl)).1.workspaces.find? id = _
    unfold Database.updateWorkspace
    rw [Table.find?_updateKey, if_pos rfl, hrow]
    rfl

theorem Inspected.mono {seen' : Trace Call Answer} {row : WorkspaceRow} {status : WorkspaceStatus}
    (h : Inspected seen row status) (hseen : seen <+: seen') : Inspected seen' row status :=
  let ⟨answer, hmem, hiff⟩ := h
  ⟨answer, hseen.subset hmem, hiff⟩

/-- The record of a row, with the status that was found. -/
def Reports (row : WorkspaceRow) (id : JsString) (seen : Trace Call Answer)
    (record : Option WorkspaceRecord) : Prop :=
  ∃ row' : WorkspaceRow, record = some (row'.fields id) ∧ row'.handle = row.handle ∧
    Inspected seen row row'.status

/-- A `get` during which nobody else calls reports what it has seen. -/
theorem safe_get :
    Async.Safe aloneRules Choices.any (Workspace.get lib id)
      (fun seen' record _ => match w.db.workspaces.find? id with
        | some row => Reports row id seen' record
        | none => record = none)
      (fun seen' _ _ => Rejected lib w.db id seen') seen w := by
  refine safe_read.bind (fun seen₁ existing v₁ _ hexisting => ?_) fun _ _ _ _ h _ _ _ => h
  obtain ⟨hdb₁, -, hexisting⟩ := hexisting
  cases hrow : w.db.workspaces.find? id with
  | none =>
      rw [hrow] at hexisting
      subst hexisting
      exact Async.safe_pure fun _ _ _ => rfl
  | some row =>
      rw [hrow] at hexisting
      subst hexisting
      refine (safe_selectWorkspace (w := v₁)).bind (fun seen₂ row' v₂ _ hrow' => ?_)
        fun _ _ _ _ h _ _ _ => .inl h
      obtain ⟨hdb₂, -, hrow'⟩ := hrow'
      rw [hdb₁, hrow] at hrow'
      subst hrow'
      refine (safe_inspect (w := v₂) row).bind (fun seen₃ status v₃ _ hstatus => ?_)
        fun _ _ _ _ h _ _ _ => .inl h
      obtain ⟨hdb₃, hstatus⟩ := hstatus
      split
      · have hfound : v₃.db.workspaces.find? id = some row := by rw [hdb₃, hdb₂, hdb₁, hrow]
        refine (safe_setStatus hfound).bind (fun seen₄ changes v₄ _ hset => ?_)
          fun _ _ _ _ h _ _ _ => .inl h
        obtain ⟨hseen, rfl, hfind⟩ := hset
        refine (safe_read (w := v₄)).mono (fun seen₅ record v₅ _ hrecord => ?_)
          fun seen' _ _ _ h => h.imp_right fun h => ?_
        · obtain ⟨-, hseen', hrecord⟩ := hrecord
          rw [hfind] at hrecord
          exact ⟨_, hrecord, rfl, hstatus.mono (hseen.trans hseen')⟩
        · -- a new status makes no row unreadable
          obtain ⟨row', hrow', hunread⟩ := h
          rw [hfind] at hrow'
          obtain rfl := Option.some.inj hrow'
          exact ⟨row, hrow, fun h => hunread (h.setStatus status)⟩
      · rename_i hsame
        obtain rfl : status = row.status := not_not.mp hsame
        exact Async.safe_pure fun _ _ _ => ⟨row, rfl, rfl, hstatus⟩

end

/-! ## Handles -/

/-- `open` in checkout mode. -/
def Request.IsCheckout : Request → Prop
  | .open _ _ options => options.mode.getD .checkout = .checkout
  | .get _ => False

/-- What a checkout that returns has resolved to. -/
def checkoutPost (q : Request) (seen : Trace Call Answer) (outcome : Outcome) (w : World) : Prop :=
  q.IsCheckout → ∀ record, outcome = .ok (some record) → Opened seen record.workspaceId w

theorem safe_checkout (q : Request) (w : World) :
    (q.program lib).Safe handleRules Choices.any (checkoutPost q) [] w := by
  have hother : ∀ q : Request, ¬ q.IsCheckout →
      (q.program lib).Safe handleRules Choices.any (checkoutPost q) [] w := fun q hq =>
    Prog.Safe.mono (fun _ _ _ _ _ h => absurd h hq)
      (Prog.Safe.of_uses (F := fun _ _ => True) (fun _ _ _ _ _ => trivial)
        (fun _ c v e _ _ _ _ => ⟨trivial, handler_rowsLater e c v, trivial⟩)
        (Prog.uses_any (q.program lib)) trivial)
  by_cases hq : q.IsCheckout
  · cases q with
    | get id => exact hq.elim
    | «open» registry path options =>
        have hopen : Async.Safe handleRules Choices.any (registry.open lib path options)
            (fun seen record w => Opened seen record.workspaceId w) (fun _ _ _ => True) [] w := by
          unfold WorkspaceRegistry.open
          split
          · exact Async.safe_throw fun _ _ _ => trivial
          · split
            · rename_i hmode
              exact absurd (hmode.symm.trans hq) nofun
            · split
              · exact Async.safe_throw fun _ _ _ => trivial
              · exact safe_openCheckout path w
        have hsome : Async.Safe handleRules Choices.any (some <$> registry.open lib path options)
            (fun seen record w => ∀ r, record = some r → Opened seen r.workspaceId w)
            (fun _ _ _ => True) [] w :=
          hopen.map (fun seen record v _ hv u hu _ r hr => Option.some.inj hr ▸ hv.later hu)
            fun _ _ _ _ _ _ _ _ => trivial
        refine Prog.Safe.mono (fun seen outcome w _ hpost _ record hrecord => ?_) hsome
        subst hrecord
        exact hpost record rfl
  · exact hother q hq

variable (lib) in
/-- What a `get` of the id ends with. -/
def getPost (db : Database) (id : JsString) (_ : Request) (seen : Trace Call Answer)
    (outcome : Outcome) (_ : World) : Prop :=
  match outcome with
  | .ok record =>
      match db.workspaces.find? id with
      | some row => Reports row id seen record
      | none => record = none
  | .error _ => Rejected lib db id seen

theorem getPost.reports {db : Database} {id : JsString} {q : Request}
    {seen : Trace Call Answer} {outcome : Outcome} {w : World}
    (h : getPost lib db id q seen outcome w) {row : WorkspaceRow}
    (hrow : db.workspaces.find? id = some row) (hreadable : row.Readable lib id)
    (hcalls : ¬ CallFailed seen) :
    ∃ r, outcome = .ok (some r) ∧ r.workspaceId = id ∧ r.canonicalPath = row.canonicalPath ∧
      r.mode = row.mode ∧ Inspected seen row r.status := by
  unfold getPost at h
  cases outcome with
  | ok record =>
      rw [hrow] at h
      obtain ⟨row', rfl, hhandle, hstatus⟩ := h
      obtain ⟨hpath, hrest⟩ := Prod.mk.inj hhandle
      exact ⟨_, rfl, rfl, hpath, (Prod.mk.inj hrest).2, hstatus⟩
  | error x =>
      obtain hfailed | ⟨row', hrow', hunread⟩ := h
      · exact absurd hfailed hcalls
      · obtain rfl := Option.some.inj (hrow.symm.trans hrow')
        exact absurd hreadable hunread

theorem getPost.found {db : Database} {id : JsString} {q : Request} {seen : Trace Call Answer}
    {r : WorkspaceRecord} {w : World} (h : getPost lib db id q seen (.ok (some r)) w) :
    ∃ row, db.workspaces.find? id = some row ∧ Inspected seen row r.status := by
  unfold getPost at h
  cases hrow : db.workspaces.find? id with
  | none =>
      rw [hrow] at h
      cases h
  | some row =>
      rw [hrow] at h
      obtain ⟨row', hr, -, hstatus⟩ := h
      obtain rfl := Option.some.inj hr
      exact ⟨row, rfl, hstatus⟩

/-- A `get` that runs on its own. -/
theorem getPost_alone (s : System) {i : Nat} {id : JsString}
    (hstart : s.threads[i]? = some ⟨.get id, [], (Request.get id).program lib⟩)
    (es : List Choice) {t : Thread Request Call Answer Outcome} {outcome : Outcome}
    (ht : (s.run lib (es.map (.call i))).threads[i]? = some t) (hrest : t.rest = .done outcome) :
    getPost lib s.world.db id (.get id) t.history outcome (s.run lib (es.map (.call i))).world := by
  have hsafe : ((Request.get id).program lib).Safe aloneRules Choices.any
      (getPost lib s.world.db id (.get id)) [] s.world :=
    Prog.Safe.mono (fun seen outcome w _ h => by cases outcome <;> exact h) safe_get
  obtain ⟨t', ht', -, hpost⟩ := Pool.alone
    (fun (_ : Request) _ _ _ _ => trivial) es hstart trivial hsafe
  obtain rfl : t = t' := Option.some.inj (ht.symm.trans ht')
  exact hpost _ hrest

/-- Whatever is called on any number of registries, and however the file system
changes: a row keeps its path, identity, mode and creation time; what changes
it increases its version; two checkouts have one handle exactly when they have
resolved to one directory; and a `get` on its own ends, with a record of a row
that can be read unless a call fails, and the record says whether the directory
was there when it looked. -/
theorem handles_stable (lib : Libraries) (s : System) :
    (∀ actions id row, s.world.db.workspaces.find? id = some row →
      ∃ row', (s.run lib actions).world.db.workspaces.find? id = some row' ∧
        row'.canonicalPath = row.canonicalPath ∧
        row'.filesystemIdentity = row.filesystemIdentity ∧ row'.mode = row.mode ∧
        row'.createdAt = row.createdAt) ∧
    (∀ a id row row', s.world.db.workspaces.find? id = some row →
      (s.step lib a).world.db.workspaces.find? id = some row' → row' ≠ row →
      row.metadataVersion < row'.metadataVersion) ∧
    (s.threads = [] → ∀ actions (i j : Nat) t u r r',
      (s.run lib actions).threads[i]? = some t → (s.run lib actions).threads[j]? = some u →
      t.request.IsCheckout → u.request.IsCheckout →
      t.rest = .done (.ok (some r)) → u.rest = .done (.ok (some r')) →
      ∃ directory directory', resolvedTo t.history = some directory ∧
        resolvedTo u.history = some directory' ∧
        (r.workspaceId = r'.workspaceId ↔ directory = directory')) ∧
    (∀ (i : Nat) id, s.threads[i]? = some ⟨.get id, [], (Request.get id).program lib⟩ →
      (∀ es : Nat → Choice, ∃ n t outcome,
        (s.run lib ((List.range n).map fun k => .call i (es k))).threads[i]? = some t ∧
        t.rest = .done outcome) ∧
      ∀ (es : List Choice) t outcome, (s.run lib (es.map (.call i))).threads[i]? = some t →
        t.rest = .done outcome →
        (∀ r, outcome = .ok (some r) →
          ∃ row, s.world.db.workspaces.find? id = some row ∧ Inspected t.history row r.status) ∧
        ∀ row, s.world.db.workspaces.find? id = some row → row.Readable lib id →
          ¬ CallFailed t.history →
          ∃ r, outcome = .ok (some r) ∧ r.workspaceId = id ∧
            r.canonicalPath = row.canonicalPath ∧ r.mode = row.mode ∧
            Inspected t.history row r.status) := by
  refine ⟨fun actions id row hrow => ?_, fun a id row row' hrow hrow' hne => ?_,
    fun hthreads actions i j t u r r' ht hu hcheckout hcheckout' hrest hrest' => ?_,
    fun i id hstart => ⟨fun es => ?_, fun es t outcome ht hrest => ?_⟩⟩
  · obtain ⟨row', hrow', hlater⟩ := run_rowsLater lib s actions id row hrow
    exact ⟨row', hrow', hlater.canonicalPath, hlater.filesystemIdentity, hlater.mode,
      hlater.createdAt⟩
  · obtain ⟨row'', hrow'', hlater⟩ := run_rowsLater lib s [a] id row hrow
    have heq : row' = row'' := Option.some.inj (hrow'.symm.trans hrow'')
    obtain hsame | hlt := hlater.version
    · exact absurd (heq.trans hsame) hne
    · exact heq ▸ hlt
  · have hsound : Pool.Sound handleRules (fun _ => Choices.any) checkoutPost
        (s.run lib actions) :=
      Pool.Sound.run (fun _ _ _ _ h => h) (fun q w _ _ => safe_checkout q w) actions
        (meets_any actions s)
        ⟨trivial, fun i t ht => by rw [hthreads] at ht; cases ht⟩
    obtain ⟨directory, row, hdirectory, hrow, hhandle⟩ :=
      hsound.ended ht hrest hcheckout r rfl
    obtain ⟨directory', row', hdirectory', hrow', hhandle'⟩ :=
      hsound.ended hu hrest' hcheckout' r' rfl
    refine ⟨directory, directory', hdirectory, hdirectory', fun h => ?_, fun h => ?_⟩
    · rw [h, hrow'] at hrow
      obtain rfl := Option.some.inj hrow
      rw [hhandle] at hhandle'
      obtain ⟨hpath, hrest⟩ := Prod.mk.inj hhandle'
      exact Prod.ext hpath (Prod.mk.inj hrest).1
    · refine (s.run lib actions).world.db.handle_unique _ _ row row' hrow hrow' ?_
      rw [hhandle, hhandle', h]
  · exact Pool.ends (Request.program lib) handler (fun k => .call i (es k))
      (fun n => ⟨n, Nat.le_refl n, es n, rfl⟩) _ 0 _ hstart rfl
  · have hpost := getPost_alone s hstart es ht hrest
    exact ⟨fun r hr => (hr ▸ hpost).found, fun row hrow hreadable hcalls =>
      hpost.reports hrow hreadable hcalls⟩

/-- Two checkouts of `/r`, one after the other. -/
def Sample.opened : System :=
  System.run libraries system
    (.start (.open Sample.registry (js "/r") ⟨none, none⟩) ::
      .start (.open Sample.registry (js "/r") ⟨none, none⟩) :: calls 0 'A' 6 ++ calls 1 'B' 6)

/-- Another directory has taken the place of `/r`, and a `get` begins. -/
def Sample.replaced : System :=
  System.run libraries
    ⟨⟨opened.world.db, { site with files := { files with stat := fun _ => .ok ⟨true, 1, 7, 0⟩ } }⟩,
      []⟩ [.start (.get (js "A"))]

/-- The row after the two checkouts. -/
def Sample.row : WorkspaceRow where
  canonicalPath := js "/r"
  requestedPath := js "/r"
  filesystemIdentity := js "1:2:0"
  mode := .checkout
  repoRoot := some (js "/r")
  worktreePath := none
  baseRef := none
  branch := none
  createdAt := js "now"
  lastUsedAt := js "now"
  ownerInstance := none
  status := .available
  metadataVersion := 2

/-- What the `get` calls. -/
def Sample.getHistory : Trace Call Answer :=
  [⟨.sql (.selectWorkspace (js "A")), .ok (some row)⟩,
    ⟨.sql (.selectWorkspace (js "A")), .ok (some row)⟩, ⟨.stat (js "/r"), .ok ⟨true, 1, 7, 0⟩⟩,
    ⟨.sql (.setStatus (js "A") .invalid), .ok (1 : Nat)⟩,
    ⟨.sql (.selectWorkspace (js "A")), .ok (some (row.setStatus .invalid))⟩]

theorem Sample.replaced_get : ∃ outcome,
    (System.run libraries replaced (calls 0 'B' 5)).threads[0]? =
      some ⟨.get (js "A"), getHistory, .done outcome⟩ :=
  ⟨_, rfl⟩

theorem Sample.replaced_row : replaced.world.db.workspaces.find? (js "A") = some row := by
  decide +kernel

theorem Sample.stat_answer {answer : Answer (.stat (js "/r"))}
    (h : (⟨.stat (js "/r"), answer⟩ : (c : Call) × Answer c) ∈ getHistory) :
    answer = .ok ⟨true, 1, 7, 0⟩ := by
  simp only [getHistory, List.mem_cons, List.not_mem_nil, or_false] at h
  obtain h | h | h | h | h := h
  · cases h
  · cases h
  · cases h
    rfl
  · cases h
  · cases h

theorem Sample.opened_thread (i : Nat) (hi : i < 2) : ∃ t r, opened.threads[i]? = some t ∧
    t.request.IsCheckout ∧ t.rest = .done (.ok (some r)) ∧
    resolvedTo t.history = some (js "/r", js "1:2:0") := by
  obtain rfl | rfl : i = 0 ∨ i = 1 := by omega
  · exact ⟨_, _, rfl, rfl, rfl, rfl⟩
  · exact ⟨_, _, rfl, rfl, rfl, rfl⟩

theorem handles_stable_replaced :
    let s := System.run Sample.libraries Sample.replaced (Sample.calls 0 'B' 5)
    (∃ row, s.world.db.workspaces.find? (js "A") = some row ∧
      row.canonicalPath = js "/r" ∧ row.filesystemIdentity = js "1:2:0") ∧
    (∃ t u r r', Sample.opened.threads[0]? = some t ∧ Sample.opened.threads[1]? = some u ∧
      t.rest = .done (.ok (some r)) ∧ u.rest = .done (.ok (some r')) ∧
      r.workspaceId = r'.workspaceId) ∧
    ∃ t r, s.threads[0]? = some t ∧ t.rest = .done (.ok (some r)) ∧ r.workspaceId = js "A" ∧
      r.status ≠ .available := by
  refine ⟨?_, ?_, ?_⟩
  · obtain ⟨row, hrow, hpath, hidentity, -, -⟩ :=
      (handles_stable Sample.libraries Sample.replaced).1 _ _ _ Sample.replaced_row
    exact ⟨row, hrow, hpath, hidentity⟩
  · obtain ⟨t, r, ht, hcheckout, hrest, hresolved⟩ := Sample.opened_thread 0 (by decide)
    obtain ⟨u, r', hu, hcheckout', hrest', hresolved'⟩ := Sample.opened_thread 1 (by decide)
    obtain ⟨directory, directory', h, h', hiff⟩ :=
      (handles_stable Sample.libraries Sample.system).2.2.1 rfl _ 0 1 t u r r' ht hu hcheckout
        hcheckout' hrest hrest'
    have hsame : directory = directory' := by
      rw [hresolved] at h
      rw [hresolved'] at h'
      exact (Option.some.inj h).symm.trans (Option.some.inj h')
    exact ⟨t, u, r, r', ht, hu, hrest, hrest', hiff.mpr hsame⟩
  · obtain ⟨outcome, ht⟩ := Sample.replaced_get
    obtain ⟨-, hreports⟩ := (handles_stable Sample.libraries Sample.replaced).2.2.2 0 (js "A") rfl
    obtain ⟨-, hreports⟩ := hreports (List.replicate 5 (Sample.choice 'B')) _ outcome ht rfl
    have hcalls : ¬ CallFailed Sample.getHistory := by
      simp [CallFailed, Sample.getHistory, Call.Failed]
    obtain ⟨r, rfl, hid, -, -, answer, hmem, hstatus⟩ :=
      hreports Sample.row Sample.replaced_row rfl hcalls
    refine ⟨_, r, ht, rfl, hid, fun havailable => ?_⟩
    -- the directory that is there now has another identity
    obtain rfl := Sample.stat_answer hmem
    obtain ⟨stats, hstats, -, hidentity⟩ := hstatus.mp havailable
    obtain rfl := Except.ok.inj hstats
    revert hidentity
    decide

end Benchhand.Workspace
