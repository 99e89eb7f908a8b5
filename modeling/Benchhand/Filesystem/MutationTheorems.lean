/-
Benchhand.Filesystem.MutationTheorems — writes and patches commit or change nothing.

The calls of `writeAtomic` follow the protocol to its end, whatever other
processes do and whatever fails (`wp_writeAtomic`), and so do those of a write
and a patch. What the protocol does, they do (`all_or_nothing`).
-/
import Benchhand.Filesystem.CommitTheorems
import Benchhand.Filesystem.WriteSuccessTheorems

namespace Benchhand.Filesystem

open Text Posix Process

/-! ## The calls of the parts -/

theorem uses_lookups {α : Type} {p : Async α} (h : Async.Uses Lookup p) :
    Async.Uses ReadOnly p := by
  refine Prog.Uses.mono (fun c hc => ?_) h
  cases c <;> trivial

theorem uses_syncDirectory (directory : JsString) :
    Async.Uses ReadOnly (syncDirectoryBestEffort directory) := by
  unfold syncDirectoryBestEffort
  refine Async.uses_bind (Async.uses_tryCatch (Async.uses_map (Async.uses_request trivial))
    fun _ => Async.uses_pure) fun handle => ?_
  cases handle with
  | none => exact Async.uses_pure
  | some handle =>
      refine Async.uses_bind (Async.uses_tryCatch (Async.uses_map (Async.uses_request trivial))
        fun _ => Async.uses_pure) fun synced => ?_
      exact Async.uses_bind (Async.uses_ignoreErrors (Async.uses_request trivial))
        fun _ => Async.uses_pure

theorem uses_staging (handle : Handle) (initial : WriteTargetState) (content : Bytes) :
    Async.Uses (fun c => ReadOnly c ∨ Edits handle.path c)
      (tryFinally (stageContent handle initial content) (Handle.close handle)) := by
  refine Async.uses_tryFinally ?_ (Async.uses_request (.inl trivial))
  unfold stageContent
  refine Async.uses_bind ?_ fun _ => Async.uses_bind
    (Async.uses_request (.inr (.writeFile rfl content))) fun _ => Async.uses_request (.inl trivial)
  split
  · exact Async.uses_request (.inr (.chmod rfl initial.mode))
  · exact Async.uses_pure

section
-- the messages in these functions are long, and no proof has to look into them
attribute [local irreducible] Async.Uses

theorem lookups_writeTarget (root path : JsString) (verb : String) :
    Async.Uses Lookup (writeTarget root path verb) := by
  unfold writeTarget
  refine Async.uses_bind (uses_resolveExistingPath _ _) fun parent => ?_
  refine Async.uses_bind (Async.uses_mapError (Async.uses_request trivial)) fun stats => ?_
  exact Async.uses_bind (uses_failWhen _ _ _ _) fun _ => Async.uses_bind (uses_failWhen _ _ _ _)
    fun _ => Async.uses_pure

theorem lookups_prepareWrite (service : Service) (request : WriteRequest) :
    Async.Uses Lookup (service.prepareWrite request) := by
  unfold Service.prepareWrite
  refine Async.uses_bind (uses_failWhen _ _ _ _) fun _ => ?_
  refine Async.uses_bind (uses_ofExcept _) fun _ => ?_
  refine Async.uses_bind (uses_accessWorkspace _ _) fun root => ?_
  exact Async.uses_bind (uses_ofExcept _) fun _ => Async.uses_bind (lookups_writeTarget _ _ _)
    fun _ => Async.uses_pure

theorem lookups_preparePatch (service : Service) (request : PatchRequest) :
    Async.Uses Lookup (service.preparePatch request) := by
  unfold Service.preparePatch
  refine Async.uses_bind (uses_ofExcept _) fun _ => Async.uses_bind (uses_ofExcept _) fun _ => ?_
  refine Async.uses_bind (uses_accessWorkspace _ _) fun root => ?_
  exact Async.uses_bind (uses_ofExcept _) fun _ => Async.uses_bind (lookups_writeTarget _ _ _)
    fun _ => Async.uses_pure

theorem uses_prepareWrite (service : Service) (request : WriteRequest) :
    Async.Uses ReadOnly (service.prepareWrite request) :=
  uses_lookups (lookups_prepareWrite service request)

theorem uses_preparePatch (service : Service) (request : PatchRequest) :
    Async.Uses ReadOnly (service.preparePatch request) :=
  uses_lookups (lookups_preparePatch service request)

end

theorem uses_patchFailure (service : Service) (options : PatchOptions) (error : Thrown) :
    Async.Uses ReadOnly (service.patchFailure options error) := by
  unfold Service.patchFailure
  split
  · exact Async.uses_bind (uses_inspectWriteTarget _ _ _) fun _ => uses_ofExcept _
  · split
    · split <;> exact Async.uses_throw
    · exact Async.uses_throw

/-- The calls that give no name to an existing file. -/
def Placing (c : Call) : Prop := (∀ old new, c ≠ .link old new) ∧ ∀ old new, c ≠ .rename old new

theorem placing_of_readOnly {c : Call} (h : ReadOnly c) : Placing c := by
  constructor
  · rintro old new rfl
    exact h
  · rintro old new rfl
    exact h

theorem placing_of_edits {c : Call} {place : Path} (h : Edits place c) : Placing c := by
  constructor
  · rintro old new rfl
    cases h
  · rintro old new rfl
    cases h

theorem placing_openExclusive (p : JsString) (mode : Mode) : Placing (.openExclusive p mode) :=
  ⟨fun _ _ => Call.noConfusion, fun _ _ => Call.noConfusion⟩

theorem placing_rm (p : JsString) : Placing (.rm p) :=
  ⟨fun _ _ => Call.noConfusion, fun _ _ => Call.noConfusion⟩

theorem placing_of_uses {α : Type} {p : Async α} (hp : Async.Uses ReadOnly p) :
    Async.Uses Placing p := Prog.Uses.mono (fun _ => placing_of_readOnly) hp

/-! ## The protocol is followed -/

/-- The calls have come to an end, with a commit or without one. -/
def Ended (target temp : JsString) (committed : Bool) (w : World) : Prop :=
  ∃ stage, Proceeds target temp stage w.log ∧ stage.ended = true ∧ stage.committed = committed

/-- The outer `try` was left before the commit. -/
inductive Stopped (target temp : JsString) : TempState → World → Prop
  | early {w : World} (h : Proceeds target temp .looking w.log) :
      Stopped target temp ⟨false, false⟩ w
  | staged {w : World} {place : Path} (h : Proceeds target temp (.staged place) w.log) :
      Stopped target temp ⟨true, false⟩ w

section
variable {α : Type} {outside : Nat → Turn} {target temp : JsString} {stage : Stage} {w : World}
  {service : Service} {uuid : JsString} {options : WriteOptions}

/-- What only looks stays where it is. -/
theorem wp_looks {p : Async α} (hp : Async.Uses ReadOnly p)
    (h : Proceeds target temp stage w.log) :
    Async.Wp (answer outside) p (fun _ w' => Proceeds target temp stage w'.log)
      (fun _ w' => Proceeds target temp stage w'.log) w :=
  wp_uses hp (fun _ _ _ hc h hcall _ => .look h (hcall ▸ hc)) h

theorem wp_stages {handle : Handle} (initial : WriteTargetState) (content : Bytes)
    (h : Proceeds target temp (.staged handle.path) w.log) :
    Async.Wp (answer outside)
      (tryFinally (stageContent handle initial content) (Handle.close handle))
      (fun _ w' => Proceeds target temp (.staged handle.path) w'.log)
      (fun _ w' => Proceeds target temp (.staged handle.path) w'.log) w := by
  refine wp_uses (uses_staging handle initial content) (fun c _ _ hc h hcall _ => ?_) h
  subst hcall
  obtain hread | hedits := hc
  · exact .look h hread
  · exact .edit h hedits

theorem wp_commitTemp {place : Path} (h : Proceeds options.target temp (.staged place) w.log) :
    Async.Wp (answer outside) (commitTemp options temp)
      (fun _ w' => Ended options.target temp true w')
      (fun _ w' => Proceeds options.target temp (.staged place) w'.log) w := by
  unfold commitTemp
  split
  · refine Async.wp_bind.mpr (Async.wp_tryCatch.mpr (wp_call ?_ ?_))
    · intro _ e _ hcall hok _
      have hlinked := Proceeds.link h hcall hok
      refine Async.wp_ignoreErrors.mpr (wp_call ?_ ?_)
      · intro _ e' _ hcall' _ _
        exact ⟨_, .removeLinked hlinked hcall', rfl, rfl⟩
      · intro _ e' _ hcall' _ _
        exact ⟨_, .removeLinked hlinked hcall', rfl, rfl⟩
    · intro error e _ hcall hok _
      have hrefused : Proceeds options.target temp (.staged place) (e :: w.log) :=
        .refused h (hcall ▸ .link) hok
      split
      · exact hrefused
      · exact hrefused
  · refine Async.wp_mapError.mpr (wp_call ?_ ?_)
    · intro _ e _ hcall hok _
      exact ⟨_, .rename h hcall hok, rfl, rfl⟩
    · intro error e _ hcall hok _
      exact .refused h (hcall ▸ .rename) hok

theorem wp_writeBody (initial : WriteTargetState)
    (h : Proceeds options.target (service.tempPath uuid options) .looking w.log) :
    Local.Wp (answer outside) (service.writeBody uuid options initial)
      (fun _ s w' => s.renamed = true ∧ Ended options.target (service.tempPath uuid options) true w')
      (fun _ => Stopped options.target (service.tempPath uuid options)) ⟨false, false⟩ w := by
  generalize htemp : service.tempPath uuid options = temp at h
  unfold Service.writeBody
  simp only [htemp]
  refine Local.wp_bind.mpr (Local.wp_lift.mpr (Async.wp_mapError.mpr (wp_call ?_ ?_)))
  · intro handle e hperform hcall hok _
    obtain ⟨hlocate, -⟩ := perform_openExclusive hperform
    have hcreated := Proceeds.create h _ hcall hok hlocate
    refine Local.wp_bind.mpr (Local.wp_assign.mpr (Local.wp_bind.mpr (Local.wp_lift.mpr ?_)))
    refine (wp_stages initial options.content hcreated).mono (fun _ w₁ h₁ => ?_)
      fun _ w₁ h₁ => .staged h₁
    refine Local.wp_bind.mpr (Local.wp_lift.mpr ?_)
    refine (wp_looks (uses_inspectWriteTarget _ _ _) h₁).mono (fun before w₂ h₂ => ?_)
      fun _ w₂ h₂ => .staged h₂
    refine Local.wp_bind.mpr (Local.wp_lift.mpr (wp_ofExcept (fun _ _ => ?_)
      fun _ _ => .staged h₂))
    refine Local.wp_bind.mpr (Local.wp_lift.mpr ?_)
    refine (wp_commitTemp h₂).mono (fun _ w₃ h₃ => ?_) fun _ w₃ h₃ => .staged h₃
    obtain ⟨stage, hstage, hended, hcommitted⟩ := h₃
    refine Local.wp_bind.mpr (Local.wp_assign.mpr (Local.wp_bind.mpr (Local.wp_lift.mpr ?_)))
    refine Async.wp_tryCatch.mpr ((wp_looks (uses_syncDirectory _) hstage).mono
      (fun synced w₄ h₄ => ?_) fun _ w₄ h₄ => ?_)
    · exact ⟨rfl, stage, h₄, hended, hcommitted⟩
    · exact ⟨rfl, stage, h₄, hended, hcommitted⟩
  · intro error e _ hcall hok _
    exact .early (.refused h (hcall ▸ .create _) hok)

/-- Every call of the atomic write follows the protocol, and the write ends
with a commit just when it resolves. -/
theorem wp_writeAtomic
    (h : Proceeds options.target (service.tempPath uuid options) .looking w.log) :
    Async.Wp (answer outside) (service.writeAtomic uuid options)
      (fun _ => Ended options.target (service.tempPath uuid options) true)
      (fun _ => Ended options.target (service.tempPath uuid options) false) w := by
  unfold Service.writeAtomic
  refine Async.wp_bind.mpr ((wp_looks (uses_inspectWriteTarget _ _ _) h).mono
    (fun initial w₁ h₁ => ?_) fun _ w₁ h₁ => ⟨_, h₁, rfl, rfl⟩)
  refine Async.wp_bind.mpr (wp_ofExcept (fun _ _ => ?_) fun _ _ => ⟨_, h₁, rfl, rfl⟩)
  refine Local.wp_tryFinally.mpr ((wp_writeBody initial h₁).mono (fun _ s w₂ h₂ => ?_)
    fun _ s w₂ h₂ => ?_)
  · rw [h₂.1, Bool.not_true, Bool.and_false]
    exact h₂.2
  · cases h₂ with
    | early h₂ => exact ⟨_, h₂, rfl, rfl⟩
    | staged h₂ =>
        refine Async.wp_ignoreErrors.mpr (wp_call ?_ ?_)
        · intro _ e _ hcall _ _
          exact ⟨_, .removeStaged h₂ hcall, rfl, rfl⟩
        · intro _ e _ hcall _ _
          exact ⟨_, .removeStaged h₂ hcall, rfl, rfl⟩

end

/-! ## Targets -/

/-- The target is a name in the parent, a directory. -/
structure Aimed (path parent : JsString) (dir : Path) (name : JsString) : Prop where
  plainDir : dir.Plain
  plainName : Plain name
  path : path = target dir [name]
  parent : parent = dir.text

section
variable {outside : Nat → Turn} {service : Service} {w : World}

attribute [local irreducible] Async.Wp

theorem wp_resolveExistingPath {root path : JsString} :
    Async.Wp (answer outside) (resolveExistingPath root path)
      (fun canonical _ => ∃ dir : Path, dir.Plain ∧ canonical = dir.text) (fun _ _ => True) w := by
  unfold resolveExistingPath
  rw [Async.wp_bind]
  refine wp_failWhen (fun _ => ?_) fun _ => trivial
  rw [Async.wp_bind, Async.wp_mapError]
  refine wp_call ?_ ?_
  · intro canonical e hperform _ _ _
    obtain ⟨-, dir, -, hlocate, -, rfl⟩ := perform_realpath.mp hperform
    rw [Async.wp_bind]
    refine wp_failWhen (fun _ => ?_) fun _ => trivial
    rw [Async.wp_pure]
    exact ⟨dir, (Volume.lands_of_locate hlocate).plain, rfl⟩
  · intro _ _ _ _ _ _
    trivial

theorem wp_writeTarget {root requestPath path : JsString} {verb : String}
    (hpath : normalizeRelativePath requestPath false = .ok path) :
    Async.Wp (answer outside) (writeTarget root path verb)
      (fun found _ => ∃ dir name, Aimed found.2 found.1 dir name) (fun _ _ => True) w := by
  obtain ⟨segs, name, hsegments, rfl⟩ := normalizeRelativePath_last hpath
  have hname : Plain name := (hsegments name (by simp)).toPlain
  unfold writeTarget
  rw [basename_portable hname]
  rw [Async.wp_bind]
  refine wp_resolveExistingPath.mono (fun parent w₁ hparent => ?_) fun _ _ _ => trivial
  obtain ⟨dir, hdir, rfl⟩ := hparent
  rw [Async.wp_bind, Async.wp_mapError]
  refine wp_call ?_ ?_
  · intro _ _ _ _ _ _
    rw [Async.wp_bind]
    refine wp_failWhen (fun _ => ?_) fun _ => trivial
    rw [Async.wp_bind]
    refine wp_failWhen (fun _ => ?_) fun _ => trivial
    rw [Async.wp_pure]
    exact ⟨dir, name, hdir, hname, join_text hdir hname, rfl⟩
  · intro _ _ _ _ _ _
    trivial

theorem wp_accessWorkspace {id : JsString} : Async.Wp (answer outside)
    (service.accessWorkspace id) (fun _ _ => True) (fun _ _ => True) w := by
  rw [Async.wp_iff]
  split <;> trivial

theorem wp_prepareWrite {request : WriteRequest} : Async.Wp (answer outside)
    (service.prepareWrite request)
    (fun options _ => normalizeExpectedSha256 request.expectedSha256 = .ok options.expectedSha256 ∧
      ∃ dir name, Aimed options.target options.parent dir name) (fun _ _ => True) w := by
  unfold Service.prepareWrite
  rw [Async.wp_bind]
  refine wp_failWhen (fun _ => ?_) fun _ => trivial
  rw [Async.wp_bind]
  refine wp_ofExcept (fun expected hexpected => ?_) fun _ _ => trivial
  rw [Async.wp_bind]
  refine wp_accessWorkspace.mono (fun root _ _ => ?_) fun _ _ _ => trivial
  rw [Async.wp_bind]
  refine wp_ofExcept (fun path hpath => ?_) fun _ _ => trivial
  rw [Async.wp_bind]
  exact (wp_writeTarget hpath).mono (fun found _ haimed => Async.wp_pure.mpr ⟨hexpected, haimed⟩)
    fun _ _ _ => trivial

theorem wp_preparePatch {request : PatchRequest} : Async.Wp (answer outside)
    (service.preparePatch request)
    (fun options _ =>
      normalizeRequiredSha256 request.expectedSha256 "expectedSha256" =
        .ok options.expectedSha256 ∧
      ∃ dir name, Aimed options.target options.parent dir name) (fun _ _ => True) w := by
  unfold Service.preparePatch
  rw [Async.wp_bind]
  refine wp_ofExcept (fun expected hexpected => ?_) fun _ _ => trivial
  rw [Async.wp_bind]
  refine wp_ofExcept (fun _ _ => ?_) fun _ _ => trivial
  rw [Async.wp_bind]
  refine wp_accessWorkspace.mono (fun root _ _ => ?_) fun _ _ _ => trivial
  rw [Async.wp_bind]
  refine wp_ofExcept (fun path hpath => ?_) fun _ _ => trivial
  rw [Async.wp_bind]
  exact (wp_writeTarget hpath).mono (fun found _ haimed => Async.wp_pure.mpr ⟨hexpected, haimed⟩)
    fun _ _ _ => trivial

end

/-! ## Writes and patches -/

section
variable {α : Type} {outside : Nat → Turn} {service : Service} {uuid : JsString} {w w₁ : World}
  {target temp : JsString}

theorem ended_of_wp {p : Async α} (h : Async.Wp (answer outside) p
    (fun _ => Ended target temp true) (fun _ => Ended target temp false) w) :
    Ended target temp (Prog.run (answer outside) p.run w).1.toBool
      (Prog.run (answer outside) p.run w).2 := by
  rw [Async.wp_iff] at h
  split at h
  · rename_i hok
    rw [hok]
    exact h
  · rename_i herror
    rw [herror]
    exact h

/-- The handler of a failing commit only looks, and throws. -/
theorem wp_patchFailure {options : PatchOptions} {error : Thrown}
    (h : Ended target temp false w) :
    Async.Wp (answer outside) (service.patchFailure options error) (fun _ _ => False)
      (fun _ => Ended target temp false) w := by
  obtain ⟨stage, hstage, hended⟩ := h
  have hthrows : Yields outside (service.patchFailure options error) (fun _ _ => False) w.vol :=
    yields_patchFailure
  have hlooks : Async.Wp (answer outside) (service.patchFailure options error) _ _ w :=
    wp_looks (uses_patchFailure service options error) hstage
  exact ((hthrows.wp w rfl).and hlooks).mono (fun _ _ hfalse => hfalse.1)
    fun _ w' h' => ⟨stage, h'.2, hended⟩

theorem proceeds_of_reads : ∀ {log : List Event}, (∀ e ∈ log, ReadOnly e.call) →
    Proceeds target temp .looking log
  | [], _ => .start
  | _ :: _, h => .look (proceeds_of_reads fun e' he' => h e' (List.mem_cons_of_mem _ he'))
      (h _ List.mem_cons_self)

/-- What prepares a mutation only looks. -/
theorem reads_names (m : Mutation) (hw : w.log = []) :
    Async.Wp (answer outside) (m.names service uuid)
      (fun _ w' => ∀ e ∈ w'.log, ReadOnly e.call) (fun _ w' => ∀ e ∈ w'.log, ReadOnly e.call) w := by
  have huses : Async.Uses ReadOnly (m.names service uuid) := by
    cases m with
    | write request => exact Async.uses_map (uses_prepareWrite service request)
    | patch request => exact Async.uses_map (uses_preparePatch service request)
  refine wp_all huses (fun _ hread => hread) ?_
  rw [hw]
  exact List.forall_mem_nil _

theorem ended_write {request : WriteRequest} {options : WriteOptions}
    (hprepare : Prog.run (answer outside) (service.prepareWrite request).run w = (.ok options, w₁))
    (h : Proceeds options.target (service.tempPath uuid options) .looking w₁.log) :
    Ended options.target (service.tempPath uuid options)
      (Prog.run (answer outside) (service.write uuid request).run w).1.toBool
      (Prog.run (answer outside) (service.write uuid request).run w).2 := by
  rw [show Prog.run (answer outside) (service.write uuid request).run w = _ from
    Async.run_bind_of_ok hprepare]
  exact ended_of_wp (wp_writeAtomic h)

theorem ended_patch {request : PatchRequest} {options : PatchOptions}
    (hprepare : Prog.run (answer outside) (service.preparePatch request).run w = (.ok options, w₁))
    (h : Proceeds options.target (service.tempPath uuid (Mutation.patched options []))
      .looking w₁.log) :
    Ended options.target (service.tempPath uuid (Mutation.patched options []))
      (Prog.run (answer outside) (service.patch uuid request).run w).1.toBool
      (Prog.run (answer outside) (service.patch uuid request).run w).2 := by
  rw [show Prog.run (answer outside) (service.patch uuid request).run w = _ from
    Async.run_bind_of_ok hprepare]
  refine ended_of_wp ?_
  rw [Async.wp_bind]
  refine (wp_looks (uses_patchedContent service options) h).mono (fun found w₂ h₂ => ?_)
    fun _ w₂ h₂ => ⟨_, h₂, rfl, rfl⟩
  obtain ⟨content, editsApplied⟩ := found
  rw [Async.wp_bind, Async.wp_tryCatch]
  have hatomic : Async.Wp (answer outside)
      (service.writeAtomic uuid (Mutation.patched options content)) _ _ w₂ := wp_writeAtomic h₂
  refine hatomic.mono (fun _ w₃ h₃ => h₃) fun error w₃ h₃ => ?_
  exact (wp_patchFailure h₃).mono (fun _ _ => False.elim) fun _ _ h₄ => h₄

/-- A mutation whose target is found follows the protocol to its end. -/
theorem ended_mutation (m : Mutation) (hw : w.log = [])
    (hnames : Prog.run (answer outside) (m.names service uuid).run w = (.ok (target, temp), w₁)) :
    Ended target temp (Prog.run (answer outside) (m.run service uuid).run w).1.toBool
      (Prog.run (answer outside) (m.run service uuid).run w).2 := by
  have hreads : ∀ e ∈ w₁.log, ReadOnly e.call := by
    have h : Async.Wp (answer outside) (m.names service uuid) _ _ w := reads_names m hw
    rwa [Async.wp_iff, hnames] at h
  cases m with
  | write request =>
      obtain ⟨options, hprepare, heq⟩ := Async.run_map_ok.mp hnames
      cases heq
      exact ended_write hprepare (proceeds_of_reads hreads)
  | patch request =>
      obtain ⟨options, hprepare, heq⟩ := Async.run_map_ok.mp hnames
      cases heq
      exact ended_patch hprepare (proceeds_of_reads hreads)

/-- A mutation whose target is not found rejects, and has only looked. -/
theorem refused_mutation (m : Mutation) (hw : w.log = []) {error : Thrown}
    (hnames : Prog.run (answer outside) (m.names service uuid).run w = (.error error, w₁)) :
    (Prog.run (answer outside) (m.run service uuid).run w).1.toBool = false ∧
      ∀ e ∈ (Prog.run (answer outside) (m.run service uuid).run w).2.log, ReadOnly e.call := by
  have hreads : ∀ e ∈ w₁.log, ReadOnly e.call := by
    have h : Async.Wp (answer outside) (m.names service uuid) _ _ w := reads_names m hw
    rwa [Async.wp_iff, hnames] at h
  cases m with
  | write request =>
      have hrun : Prog.run (answer outside) (service.write uuid request).run w =
          (.error error, w₁) := Async.run_bind_of_error (Async.run_map_error.mp hnames)
      have hend : (Prog.run (answer outside)
          (Mutation.run service uuid (.write request)).run w).2 = w₁ := congrArg Prod.snd hrun
      rw [hend]
      exact ⟨congrArg (fun out => out.1.toBool) hrun, hreads⟩
  | patch request =>
      have hrun : Prog.run (answer outside) (service.patch uuid request).run w =
          (.error error, w₁) := Async.run_bind_of_error (Async.run_map_error.mp hnames)
      have hend : (Prog.run (answer outside)
          (Mutation.run service uuid (.patch request)).run w).2 = w₁ := congrArg Prod.snd hrun
      rw [hend]
      exact ⟨congrArg (fun out => out.1.toBool) hrun, hreads⟩

end

/-! ## All or nothing -/

section
variable {outside : Nat → Turn} {service : Service} {uuid : JsString} {target temp : JsString}
  {v : Volume} {w w₁ : World}

theorem endsWith_target {dir : Path} (hdir : dir.Plain) {name : JsString} (hname : Plain name) :
    EndsWith (Filesystem.target dir [name]) (scalars name) :=
  ⟨dir, components_target hdir fun _ hs => List.mem_singleton.mp hs ▸ hname, hname.name.ne_dotDot⟩

/-- The target and the staged file have different names. -/
theorem endsWith_names (hpid : slash ∉ service.pid) (huuid : slash ∉ uuid) {m : Mutation}
    (hnames : Prog.run (answer outside) (m.names service uuid).run w = (.ok (target, temp), w₁)) :
    ∃ name name', EndsWith target name ∧ EndsWith temp name' ∧ name ≠ name' := by
  have haimed (options : WriteOptions) {dir : Path} {name : JsString}
      (h : Aimed options.target options.parent dir name) :
      ∃ name name', EndsWith options.target name ∧
        EndsWith (service.tempPath uuid options) name' ∧ name ≠ name' := by
    refine ⟨_, _, h.path ▸ endsWith_target h.plainDir h.plainName, ?_,
      (scalars_tempName_ne service uuid name).symm⟩
    rw [tempPath_eq h.plainDir h.plainName hpid huuid h.path h.parent]
    exact endsWith_target h.plainDir (plain_tempName hpid huuid h.plainName)
  cases m with
  | write request =>
      obtain ⟨options, hprepare, heq⟩ := Async.run_map_ok.mp hnames
      cases heq
      have h : Async.Wp (answer outside) (service.prepareWrite request) _ _ w := wp_prepareWrite
      rw [Async.wp_iff, hprepare] at h
      obtain ⟨-, dir, name, hdir⟩ := h
      exact haimed options hdir
  | patch request =>
      obtain ⟨options, hprepare, heq⟩ := Async.run_map_ok.mp hnames
      cases heq
      have h : Async.Wp (answer outside) (service.preparePatch request) _ _ w := wp_preparePatch
      rw [Async.wp_iff, hprepare] at h
      obtain ⟨-, dir, name, hdir⟩ := h
      exact haimed (Mutation.patched options []) hdir

/-- Calls that only look change nothing. -/
theorem Chained.unchanged {log : List Event} {u : Volume} (h : Chained outside v log u)
    (hreads : ∀ e ∈ log, ReadOnly e.call) {place : Path} (hspared : Spared outside place) :
    u.node? place = v.node? place := by
  induction h with
  | nil => rfl
  | cons _ htook ih =>
      rw [htook.readOnly (hreads _ List.mem_cons_self), htook.spared hspared]
      exact ih fun e he => hreads e (List.mem_cons_of_mem _ he)

/-- A write or a patch that finds its target is all or nothing, whatever fails
and whatever other processes do; one that does not find it rejects and has only
looked. -/
theorem all_or_nothing (hpid : slash ∉ service.pid) (huuid : slash ∉ uuid) (m : Mutation)
    {outcome : Except Thrown m.Result}
    (hrun : Prog.run (answer outside) (m.run service uuid).run ⟨v, []⟩ = (outcome, w)) :
    (∀ target temp w₁,
      Prog.run (answer outside) (m.names service uuid).run ⟨v, []⟩ = (.ok (target, temp), w₁) →
      AllOrNothing outside target temp (outcome.toBool = true) v w) ∧
    (∀ error w₁,
      Prog.run (answer outside) (m.names service uuid).run ⟨v, []⟩ = (.error error, w₁) →
      outcome.toBool = false ∧ (∀ e ∈ w.log, ReadOnly e.call) ∧
        ∀ place, Spared outside place → w.vol.node? place = v.node? place) := by
  have hchained : Chained outside v w.log w.vol := by
    rw [show w = (Prog.run (answer outside) (m.run service uuid).run ⟨v, []⟩).2 from
      (congrArg Prod.snd hrun).symm]
    exact chained_run _ v
  constructor
  · intro target temp w₁ hnames
    obtain ⟨name, name', htarget, htemp, hne⟩ := endsWith_names hpid huuid hnames
    obtain ⟨stage, hproceeds, hended, hcommitted⟩ := ended_mutation m rfl hnames
    rw [hrun] at hproceeds hcommitted
    rw [← hcommitted]
    exact allOrNothing_of_proceeds htarget htemp hne hproceeds hended hchained
  · intro error w₁ hnames
    obtain ⟨hrejected, hreads⟩ := refused_mutation m rfl hnames
    rw [hrun] at hrejected hreads
    exact ⟨hrejected, hreads, fun place hspared => hchained.unchanged hreads hspared⟩

end

/-- A disk that is full: no content can be written. -/
def diskFull : Nat → Turn := fun _ =>
  ⟨fun v => v, fun c _ =>
    match c with
    | .writeFile _ _ => some ⟨⟨js "ENOSPC", js "ENOSPC: no space left on device, write"⟩, 1⟩
    | _ => none⟩

/-- The write of a file on a full disk. -/
def fullWrite : Except Thrown WriteResult × World :=
  Prog.run (answer diskFull) (oneWorkspace.write (js "u") ⟨js "ws", js "a", js "é", none⟩).run
    ⟨oneFile [], []⟩

theorem all_or_nothing_full :
    AllOrNothing diskFull (js "/ws/a") (js "/ws/.a.benchhand-write-1-u.tmp")
      (fullWrite.1.toBool = true) (oneFile []) fullWrite.2 := by
  have hnames : (Prog.run (answer diskFull)
      (Mutation.names oneWorkspace (js "u") (.write ⟨js "ws", js "a", js "é", none⟩)).run
      ⟨oneFile [], []⟩).1 = .ok (js "/ws/a", js "/ws/.a.benchhand-write-1-u.tmp") := by
    decide +kernel
  exact (all_or_nothing (by decide) (by decide) (.write ⟨js "ws", js "a", js "é", none⟩)
    rfl).1 _ _ _ (Prod.ext hnames rfl)

end Benchhand.Filesystem
