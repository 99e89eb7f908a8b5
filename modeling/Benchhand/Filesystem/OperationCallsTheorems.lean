/-
Benchhand.Filesystem.OperationCallsTheorems — the calls of an operation.

Whatever calls fail, an operation makes only calls of its own (`Own`), as long
as nobody else changes the two entries it works at: it opens its target when it
has seen a file there, and it moves and removes its staged file when it has
created it (`own_operation`).
-/
import Benchhand.Filesystem.FootprintTheorems

namespace Benchhand.Filesystem

open Text Posix Process

/-! ## Calls so far -/

/-- The calls so far were calls of the operation. -/
structure Owned (x : Spot) (w : World) : Prop where
  stands : w.vol.Stands x.dir
  own : ∀ e ∈ w.log, Own x e.before e.call

/-- And they have changed nothing since the volume. -/
structure Looking (x : Spot) (v : Volume) (w : World) : Prop where
  vol : w.vol = v
  owned : Owned x w

/-- And the staged file is there. -/
structure Staging (x : Spot) (w : World) : Prop where
  owned : Owned x w
  file : IsFile w.vol x.staged

/-- The calls that are made while the staged file is written. -/
def Stages (x : Spot) (c : Call) : Prop := (ReadOnly c ∧ ∀ v, Own x v c) ∨ Edits x.staged c

theorem own_of_edits {x : Spot} {v : Volume} {c : Call} (hc : Edits x.staged c) : Own x v c := by
  cases hc with
  | chmod h mode => exact .chmod h mode
  | writeFile h content => exact .writeFile h content

section
variable {x : Spot} {v : Volume} {outside : Nat → Turn} {w : World} {α : Type}

theorem Owned.looking (h : Owned x w) : Looking x w.vol w := ⟨rfl, h⟩

variable (halone : Alone outside)
include halone

theorem Owned.event (h : Owned x w) {n : Nat} {e : Event} (htook : Took (outside n) w.vol e)
    (hown : Own x w.vol e.call) : e.before = w.vol ∧ Owned x ⟨e.after, e :: w.log⟩ := by
  have hbefore : e.before = w.vol := by rw [htook.before, halone n]
  refine ⟨hbefore, ?_, List.forall_mem_cons.mpr ⟨hbefore.symm ▸ hown, h.own⟩⟩
  have hstands : e.before.Stands x.dir := hbefore.symm ▸ h.stands
  exact Took.stands htook hstands

theorem Looking.event (h : Looking x v w) {n : Nat} {e : Event}
    (htook : Took (outside n) w.vol e) (hread : ReadOnly e.call) (hown : Own x v e.call) :
    Looking x v ⟨e.after, e :: w.log⟩ := by
  obtain ⟨hbefore, howned⟩ := h.owned.event halone htook (h.vol.symm ▸ hown)
  exact ⟨(htook.readOnly hread).trans (hbefore.trans h.vol), howned⟩

/-- A function that only looks. -/
theorem wp_looking {p : Async α} (hp : Async.Uses (fun c => ReadOnly c ∧ Own x v c) p)
    (h : Looking x v w) :
    Async.Wp (answer outside) p (fun _ => Looking x v) (fun _ => Looking x v) w :=
  wp_uses hp (fun _ _ _ hc hI hcall htook =>
    hI.event halone htook (hcall ▸ hc.1) (hcall ▸ hc.2)) h

/-- One call that looks, with its answer. -/
theorem wp_look {c : Call} (hread : ReadOnly c) (hown : Own x v c) (h : Looking x v w) :
    Async.Wp (answer outside) (call c)
      (fun a w' => perform c v = (.ok a, v) ∧ Looking x v w')
      (fun e w' => (∃ error n, e = .errno error ∧ Failed (outside n) c v error) ∧ Looking x v w')
      w := by
  refine wp_call ?_ ?_
  · intro a e hperform hcall _ htook
    have hlooking := h.event halone htook (hcall ▸ hread) (hcall ▸ hown)
    obtain ⟨hbefore, -⟩ := h.owned.event halone htook (h.vol.symm ▸ hcall ▸ hown)
    have hafter : e.after = v := hlooking.vol
    rw [hbefore, h.vol, hafter] at hperform
    exact ⟨hperform, hlooking⟩
  · intro error e hfailed hcall _ htook
    obtain ⟨hbefore, -⟩ := h.owned.event halone htook (h.vol.symm ▸ hcall ▸ hown)
    rw [hbefore, h.vol] at hfailed
    exact ⟨⟨error, _, rfl, hfailed⟩, h.event halone htook (hcall ▸ hread) (hcall ▸ hown)⟩

theorem wp_staging {p : Async α} (hp : Async.Uses (Stages x) p) (h : Staging x w) :
    Async.Wp (answer outside) p (fun _ => Staging x) (fun _ => Staging x) w := by
  refine wp_uses hp (fun c w' e hc hI hcall htook => ?_) h
  subst hcall
  have hown : Own x w'.vol e.call := hc.elim (fun hread => hread.2 _) own_of_edits
  obtain ⟨hbefore, howned⟩ := hI.owned.event halone htook hown
  refine ⟨howned, ?_⟩
  obtain ⟨bytes, mode, hfile⟩ := hI.file
  obtain hread | hedits := hc
  · rw [← hbefore] at hfile
    exact ⟨bytes, mode, (congrArg (·.node? x.staged) (htook.readOnly hread.1)).trans hfile⟩
  · exact (htook.edits hedits).2 bytes mode (hbefore.symm ▸ hfile)

end

/-! ## The parts of an operation -/

section
variable {x : Spot} {v : Volume}

theorem stages_stageContent {handle : Handle} (h : handle.path = x.staged)
    (initial : WriteTargetState) (content : Bytes) :
    Async.Uses (Stages x)
      (tryFinally (stageContent handle initial content) (Handle.close handle)) := by
  refine Async.uses_tryFinally ?_ (Async.uses_request (.inl ⟨trivial, fun _ => .close handle⟩))
  unfold stageContent
  refine Async.uses_bind ?_ fun _ => Async.uses_bind
    (Async.uses_request (.inr (.writeFile h content))) fun _ =>
      Async.uses_request (.inl ⟨trivial, fun _ => .sync handle⟩)
  split
  · exact Async.uses_request (.inr (.chmod h initial.mode))
  · exact Async.uses_pure

theorem looks_syncDirectory :
    Async.Uses (fun c => ReadOnly c ∧ Own x v c) (syncDirectoryBestEffort x.dir.text) := by
  unfold syncDirectoryBestEffort
  refine Async.uses_bind (Async.uses_tryCatch (Async.uses_map
    (Async.uses_request ⟨trivial, .openParent⟩)) fun _ => Async.uses_pure) fun handle => ?_
  cases handle with
  | none => exact Async.uses_pure
  | some handle =>
      refine Async.uses_bind (Async.uses_tryCatch (Async.uses_map
        (Async.uses_request ⟨trivial, .sync handle⟩)) fun _ => Async.uses_pure) fun synced => ?_
      exact Async.uses_bind (Async.uses_ignoreErrors (Async.uses_request ⟨trivial, .close handle⟩))
        fun _ => Async.uses_pure

theorem looks_sha256File (service : Service) (h : Unlinked v x.place) (path : JsString) :
    Async.Uses (fun c => ReadOnly c ∧ Own x v c)
      (service.sha256File (target x.dir [x.name]) path) := by
  unfold Service.sha256File
  refine Async.uses_bind (Async.uses_mapError (Async.uses_request ⟨trivial, .openTarget h⟩))
    fun handle => Async.uses_bind ?_ fun _ => Async.uses_pure
  exact Async.uses_tryFinally
    (uses_hashedFrom (fun _ => ⟨trivial, .read handle _ _⟩) _ _ _)
    (Async.uses_request ⟨trivial, .close handle⟩)

theorem looks_readWholeFile (h : Unlinked v x.place) (path : JsString) (size : Nat) :
    Async.Uses (fun c => ReadOnly c ∧ Own x v c)
      (readWholeFile (target x.dir [x.name]) path size) := by
  unfold readWholeFile
  refine Async.uses_bind (uses_failWhen _ _ _ _) fun _ => ?_
  refine Async.uses_bind (Async.uses_mapError (Async.uses_request ⟨trivial, .openTarget h⟩))
    fun handle => ?_
  refine Async.uses_tryFinally ?_ (Async.uses_request ⟨trivial, .close handle⟩)
  exact Async.uses_bind (Async.uses_request ⟨trivial, .readFile handle⟩) fun _ =>
    Async.uses_bind (uses_failWhen _ _ _ _) fun _ => Async.uses_pure

end

section
variable {service : Service} {x : Spot} {v : Volume} {outside : Nat → Turn}
  (halone : Alone outside) (hhonest : Honest outside) {w : World}

attribute [local irreducible] Async.Wp

/-- How an `lstat` of the entry fails that says the name is missing. -/
theorem free_of_failed (hhonest : Honest outside) (hstands : v.Stands x.dir) {error : Errno} {n : Nat}
    (hfailed : Failed (outside n) (.lstat (target x.dir [x.name])) v error)
    (hcode : hasErrnoCode (.errno error) "ENOENT" = true) : FreeOrFile v x.place := by
  have hcode' : error.code = js "ENOENT" := eq_of_beq hcode
  obtain hperform | ⟨fault, hfault, rfl⟩ := hfailed
  · simp only [perform, Volume.lookup,
      locate_entry hstands x.plainName (Bool.noConfusion : false = true → _)] at hperform
    split at hperform
    · rename_i reason hreason
      split at hreason
      · obtain rfl := Except.error.inj hreason
        obtain rfl := Except.error.inj hperform
        have hlong : js "ENAMETOOLONG" = js "ENOENT" := hcode'
        exact absurd hlong (by decide)
      · cases hreason
    · rename_i place hplace
      split at hplace
      · cases hplace
      · obtain rfl := Except.ok.inj hplace
        split at hperform
        · cases hperform
        · rename_i hnode
          exact .inl hnode
  · exact absurd hcode' (hhonest n _ _ _ hfault)

include halone hhonest

/-- An inspection that resolves has found nothing, or a file. -/
theorem wp_inspectSpot {path : JsString} (h : Looking x v w) :
    Async.Wp (answer outside) (service.inspectWriteTarget (target x.dir [x.name]) path)
      (fun _ w' => FreeOrFile v x.place ∧ Looking x v w') (fun _ => Looking x v) w := by
  have hstands : v.Stands x.dir := h.vol ▸ h.owned.stands
  unfold Service.inspectWriteTarget
  rw [Async.wp_bind, Async.wp_tryCatch, Async.wp_map]
  refine (wp_look halone (c := .lstat (target x.dir [x.name])) trivial .lstat h).mono
    (fun stats w₁ h₁ => ?_) fun error w₁ h₁ => ?_
  · obtain ⟨hlstat, h₁⟩ := h₁
    obtain ⟨-, place, node, hlocate, hnode, rfl⟩ := perform_lstat.mp hlstat
    obtain rfl := locate_name hstands x.plainName hlocate
    dsimp only
    rw [Async.wp_bind]
    refine wp_failWhen (fun hsymlink => ?_) fun _ => h₁
    rw [Async.wp_bind]
    refine wp_failWhen (fun hfile => ?_) fun _ => h₁
    have hplace : FreeOrFile v x.place := by
      cases node with
      | file bytes mode => exact .inr ⟨bytes, mode, hnode⟩
      | directory => simp [Node.stats] at hfile
      | symlink link => simp [Node.stats] at hsymlink
      | other => simp [Node.stats] at hfile
    rw [Async.wp_bind]
    refine (wp_looking halone (looks_sha256File service hplace.unlinked path) h₁).mono
      (fun _ w₂ h₂ => ?_) fun _ _ h₂ => h₂
    rw [Async.wp_pure]
    exact ⟨hplace, h₂⟩
  · obtain ⟨⟨error, n, rfl, hfailed⟩, h₁⟩ := h₁
    split
    · rename_i hcode
      rw [Async.wp_pure, Async.wp_pure]
      exact ⟨free_of_failed hhonest hstands hfailed hcode, h₁⟩
    · rw [Async.wp_throw]
      exact h₁

omit hhonest in
/-- The staged file is put in the place of the target, or it is still there. -/
theorem wp_commitSpot {options : WriteOptions} (htarget : options.target = target x.dir [x.name])
    (hplace : FreeOrFile w.vol x.place) (h : Staging x w) :
    Async.Wp (answer outside) (commitTemp options (target x.dir [x.temp])) (fun _ => Owned x)
      (fun _ => Staging x) w := by
  have hfailed {c : Call} (hown : Own x w.vol c)
      (hwrite : ∀ handle content, c ≠ .writeFile handle content) {e : Event}
      (hcall : e.call = c) (hok : e.ok = false) (htook : Took (outside w.log.length) w.vol e) :
      Staging x ⟨e.after, e :: w.log⟩ := by
    obtain ⟨hbefore, howned⟩ := h.owned.event halone htook (hcall ▸ hown)
    have hafter := htook.unchanged hok fun handle content => hcall ▸ hwrite handle content
    exact ⟨howned, (hafter.trans hbefore).symm ▸ h.file⟩
  unfold commitTemp
  rw [htarget]
  split
  · unfold linkTarget
    rw [Async.wp_bind, Async.wp_tryCatch]
    refine wp_call ?_ ?_
    · intro _ e hperform hcall _ htook
      have hown := Own.link h.file
      obtain ⟨hbefore, howned⟩ := h.owned.event halone htook (hcall ▸ hown)
      obtain ⟨place, source, node, hlocate, hfree, -, -, hput⟩ := perform_link hperform
      have hstands : e.before.Stands x.dir := hbefore.symm ▸ h.owned.stands
      obtain rfl := locate_name hstands x.plainName hlocate
      have hstaged : IsFile e.after x.staged := by
        obtain ⟨bytes, mode, hfile⟩ := h.file
        refine ⟨bytes, mode, ?_⟩
        rw [hput, hbefore]
        change (w.vol.put x.place node).node? x.staged = some (.file bytes mode)
        rw [Volume.node?_put x.place_ne_nil, if_neg x.staged_ne_place, hfile]
      rw [Async.wp_ignoreErrors]
      refine wp_call ?_ ?_
      · intro _ e' _ hcall' _ htook'
        exact (howned.event halone htook' (hcall' ▸ .rm hstaged)).2
      · intro _ e' _ hcall' _ htook'
        exact (howned.event halone htook' (hcall' ▸ .rm hstaged)).2
    · intro error e _ hcall hok htook
      have hstaging := hfailed (.link h.file) (fun _ _ => Call.noConfusion) hcall hok htook
      split
      · exact Async.wp_throw.mpr hstaging
      · exact Async.wp_throw.mpr hstaging
  · rw [Async.wp_mapError]
    refine wp_call ?_ ?_
    · intro _ e _ hcall _ htook
      exact (h.owned.event halone htook (hcall ▸ .rename h.file hplace)).2
    · intro error e _ hcall hok htook
      exact hfailed (.rename h.file hplace) (fun _ _ => Call.noConfusion) hcall hok htook

/-- What the options of an operation say about where it works. -/
structure Spot.Fits (x : Spot) (service : Service) (uuid : JsString) (options : WriteOptions) :
    Prop where
  target : options.target = Filesystem.target x.dir [x.name]
  parent : options.parent = x.dir.text
  temp : service.tempPath uuid options = Filesystem.target x.dir [x.temp]

variable {uuid : JsString}

omit hhonest in
theorem wp_createSpot (mode : Mode) (h : Owned x w) :
    Async.Wp (answer outside) (openExclusive (target x.dir [x.temp]) mode)
      (fun handle w' => handle.path = x.staged ∧ Staging x w') (fun _ => Owned x) w := by
  refine wp_call ?_ ?_
  · intro handle e hperform hcall _ htook
    obtain ⟨hbefore, howned⟩ := h.event halone htook (hcall ▸ .create mode)
    obtain ⟨hlocate, hcreated⟩ := perform_openExclusive hperform
    have hstands : e.before.Stands x.dir := hbefore.symm ▸ h.stands
    have hpath : handle.path = x.staged := locate_name hstands x.plainTemp hlocate
    obtain ⟨mode', hfile⟩ := hcreated.file
    exact ⟨hpath, howned, [], mode', hpath ▸ hfile⟩
  · intro error e _ hcall _ htook
    exact (h.event halone htook (hcall ▸ .create mode)).2

theorem wp_writeBodySpot {options : WriteOptions} (hfits : x.Fits service uuid options)
    (initial : WriteTargetState) (h : Owned x w) :
    Local.Wp (answer outside) (service.writeBody uuid options initial)
      (fun _ s w' => s.renamed = true ∧ Owned x w')
      (fun _ s w' => Owned x w' ∧ (s.tempExists = true → IsFile w'.vol x.staged))
      ⟨false, false⟩ w := by
  unfold Service.writeBody
  rw [hfits.temp, hfits.target, hfits.parent]
  refine Local.wp_bind.mpr (Local.wp_lift.mpr ?_)
  rw [Async.wp_mapError]
  refine (wp_createSpot halone _ h).mono (fun handle w₁ h₁ => ?_)
    fun _ _ h₁ => ⟨h₁, Bool.noConfusion⟩
  obtain ⟨hpath, h₁⟩ := h₁
  refine Local.wp_bind.mpr (Local.wp_assign.mpr (Local.wp_bind.mpr (Local.wp_lift.mpr ?_)))
  refine (wp_staging halone (stages_stageContent hpath initial options.content) h₁).mono
    (fun _ w₂ h₂ => ?_) fun _ _ h₂ => ⟨h₂.owned, fun _ => h₂.file⟩
  refine Local.wp_bind.mpr (Local.wp_lift.mpr ?_)
  refine (wp_inspectSpot halone hhonest h₂.owned.looking).mono (fun before w₃ h₃ => ?_)
    fun _ _ h₃ => ⟨h₃.owned, fun _ => h₃.vol.symm ▸ h₂.file⟩
  obtain ⟨hplace, h₃⟩ := h₃
  have hstaging : Staging x w₃ := ⟨h₃.owned, h₃.vol.symm ▸ h₂.file⟩
  refine Local.wp_bind.mpr (Local.wp_lift.mpr (wp_ofExcept (fun _ _ => ?_)
    fun _ _ => ⟨h₃.owned, fun _ => hstaging.file⟩))
  refine Local.wp_bind.mpr (Local.wp_lift.mpr ?_)
  refine (wp_commitSpot halone hfits.target (h₃.vol.symm ▸ hplace) hstaging).mono
    (fun _ w₄ h₄ => ?_) fun _ _ h₄ => ⟨h₄.owned, fun _ => h₄.file⟩
  refine Local.wp_bind.mpr (Local.wp_assign.mpr (Local.wp_bind.mpr (Local.wp_lift.mpr ?_)))
  rw [Async.wp_tryCatch]
  refine (wp_looking halone looks_syncDirectory h₄.looking).mono (fun _ _ h₅ => ?_)
    fun _ _ h₅ => ?_
  · exact ⟨rfl, h₅.owned⟩
  · rw [Async.wp_pure]
    exact ⟨rfl, h₅.owned⟩

theorem wp_writeAtomicSpot {options : WriteOptions} (hfits : x.Fits service uuid options)
    (h : Owned x w) : Async.Wp (answer outside) (service.writeAtomic uuid options)
      (fun _ => Owned x) (fun _ => Owned x) w := by
  unfold Service.writeAtomic
  rw [hfits.target, Async.wp_bind]
  refine (wp_inspectSpot halone hhonest h.looking).mono (fun initial w₁ h₁ => ?_)
    fun _ _ h₁ => h₁.owned
  rw [Async.wp_bind]
  refine wp_ofExcept (fun _ _ => ?_) fun _ _ => h₁.2.owned
  refine Local.wp_tryFinally.mpr ?_
  refine (wp_writeBodySpot halone hhonest hfits initial h₁.2.owned).mono (fun _ s w₂ h₂ => ?_)
    fun _ s w₂ h₂ => ?_
  · rw [h₂.1, Bool.not_true, Bool.and_false]
    exact Async.wp_pure.mpr h₂.2
  · split
    · rename_i hleft
      rw [Bool.and_eq_true] at hleft
      rw [Async.wp_ignoreErrors, hfits.temp]
      have hown := Own.rm (h₂.2 hleft.1)
      refine wp_call ?_ ?_
      · intro _ e _ hcall _ htook
        exact (h₂.1.event halone htook (hcall ▸ hown)).2
      · intro _ e _ hcall _ htook
        exact (h₂.1.event halone htook (hcall ▸ hown)).2
    · exact Async.wp_pure.mpr h₂.1

theorem wp_patchedContentSpot {options : PatchOptions}
    (htarget : options.target = target x.dir [x.name]) (h : Owned x w) :
    Async.Wp (answer outside) (service.patchedContent options) (fun _ => Owned x)
      (fun _ => Owned x) w := by
  unfold Service.patchedContent
  rw [htarget, Async.wp_bind]
  refine (wp_inspectSpot halone hhonest h.looking).mono (fun initial w₁ h₁ => ?_)
    fun _ _ h₁ => h₁.owned
  obtain ⟨hplace, h₁⟩ := h₁
  rw [Async.wp_bind]
  refine wp_ofExcept (fun _ _ => ?_) fun _ _ => h₁.owned
  rw [Async.wp_bind]
  refine wp_failWhen (fun _ => ?_) fun _ => h₁.owned
  rw [Async.wp_bind]
  refine (wp_looking halone (looks_readWholeFile hplace.unlinked _ _) h₁).mono
    (fun source w₂ h₂ => ?_) fun _ _ h₂ => h₂.owned
  rw [Async.wp_bind]
  refine wp_ofExcept (fun _ _ => ?_) fun _ _ => h₂.owned
  rw [Async.wp_bind]
  refine wp_failWhen (fun _ => ?_) fun _ => h₂.owned
  rw [Async.wp_bind]
  refine (wp_looking halone (uses_decodeUtf8 source) h₂).mono (fun text w₃ h₃ => ?_)
    fun _ _ h₃ => h₃.owned
  rw [Async.wp_bind]
  refine wp_ofExcept (fun _ _ => ?_) fun _ _ => h₃.owned
  rw [Async.wp_bind]
  refine wp_failWhen (fun _ => ?_) fun _ => h₃.owned
  exact Async.wp_pure.mpr h₃.owned

theorem wp_patchFailureSpot {options : PatchOptions}
    (htarget : options.target = target x.dir [x.name]) (error : Thrown) (h : Owned x w) :
    Async.Wp (answer outside) (service.patchFailure options error) (fun _ => Owned x)
      (fun _ => Owned x) w := by
  unfold Service.patchFailure
  split
  · rw [htarget, Async.wp_bind]
    refine (wp_inspectSpot halone hhonest h.looking).mono (fun current w₁ h₁ => ?_)
      fun _ _ h₁ => h₁.owned
    exact wp_ofExcept (fun _ _ => h₁.2.owned) fun _ _ => h₁.2.owned
  · split
    · split
      · exact Async.wp_throw.mpr h
      · exact Async.wp_throw.mpr h
    · exact Async.wp_throw.mpr h

end

/-! ## Operations -/

/-- Where a mutation works whose turn has come. -/
structure Prepared.At (prepared : Prepared) (service : Service) (uuid : JsString) (x : Spot) :
    Prop where
  target : prepared.target = Filesystem.target x.dir [x.name]
  parent : prepared.parent = x.dir.text
  temp : x.temp = service.tempName uuid x.name
  pid : slash ∉ service.pid
  uuid : slash ∉ uuid

section
variable {service : Service} {uuid : JsString} {x : Spot} {outside : Nat → Turn} {w : World}

theorem Prepared.At.fits {options : WriteOptions} {prepared : Prepared}
    (h : prepared.At service uuid x) (htarget : options.target = prepared.target)
    (hparent : options.parent = prepared.parent) : x.Fits service uuid options where
  target := htarget.trans h.target
  parent := hparent.trans h.parent
  temp := by
    rw [tempPath_eq x.plainDir x.plainName h.pid h.uuid (htarget.trans h.target)
      (hparent.trans h.parent), h.temp]

/-- An operation makes calls of its own, whatever fails. -/
theorem own_operation (halone : Alone outside) (hhonest : Honest outside) {prepared : Prepared}
    (h : prepared.At service uuid x) (howned : Owned x w) :
    Async.Wp (answer outside) (prepared.operation service uuid) (fun _ => Owned x)
      (fun _ => Owned x) w := by
  cases prepared with
  | write options =>
      exact Async.wp_map.mpr (wp_writeAtomicSpot halone hhonest (h.fits rfl rfl) howned)
  | patch options =>
      refine Async.wp_map.mpr ?_
      unfold Service.patchOperation
      refine Async.wp_bind.mpr ?_
      refine (wp_patchedContentSpot halone hhonest h.target howned).mono (fun found w₁ h₁ => ?_)
        fun _ _ h₁ => h₁
      obtain ⟨content, editsApplied⟩ := found
      have hfits : x.Fits service uuid (Mutation.patched options content) := h.fits rfl rfl
      refine Async.wp_bind.mpr (Async.wp_tryCatch.mpr ?_)
      refine (wp_writeAtomicSpot halone hhonest hfits h₁).mono (fun _ _ h₂ => h₂)
        fun error _ h₂ => ?_
      exact wp_patchFailureSpot halone hhonest h.target error h₂

end

/-! ## Call by call -/

/-- The outside in which the calls go as listed. -/
def scripted (faults : List (Option Fault)) : Nat → Turn := fun n =>
  ⟨fun v => v, fun _ _ => (faults[n]?).join⟩

theorem alone_scripted (faults : List (Option Fault)) : Alone (scripted faults) := fun _ _ => rfl

/-- A failing call does not report that a name is missing. -/
def HonestFault (fault : Option Fault) : Prop :=
  ∀ f, fault = some f → f.errno.code ≠ js "ENOENT"

theorem honest_scripted {faults : List (Option Fault)} (h : ∀ f ∈ faults, HonestFault f) :
    Honest (scripted faults) := by
  intro n c v fault hfault
  have hsome : faults[n]? = some (some fault) := Option.join_eq_some_iff.mp hfault
  exact h _ (List.mem_of_getElem? hsome) fault rfl

section
variable {α : Type} {faults fs : List (Option Fault)} {p q : Prog Call Answer α} {v v' : Volume}

theorem answer_scripted {log : List Event} {f : Option Fault} (hf : faults[log.length]? = some f)
    (c : Call) : ∃ ok, answer (scripted faults) c ⟨v, log⟩ =
      ((respond f c v).1, ⟨(respond f c v).2, ⟨c, v, ok, (respond f c v).2⟩ :: log⟩) := by
  refine ⟨(respond f c v).1.toBool, ?_⟩
  unfold answer scripted
  simp only [hf, Option.join_some]
  cases f <;> rfl

/-- The run in which the calls go as listed begins with these calls. -/
theorem run_of_steps (h : Prog.Steps respond p v fs q v') :
    ∀ log : List Event, faults.drop log.length = fs → ∃ log',
      Prog.run (answer (scripted faults)) p ⟨v, log⟩ =
        Prog.run (answer (scripted faults)) q ⟨v', log'⟩ := by
  induction h with
  | nil p v => exact fun log _ => ⟨log, rfl⟩
  | @cons c next v v' f fs q h ih =>
      intro log hlog
      have hf : faults[log.length]? = some f := by
        rw [← List.head?_drop, hlog, List.head?_cons]
      have hrest : faults.drop (log.length + 1) = fs := by
        rw [← List.tail_drop, hlog, List.tail_cons]
      obtain ⟨ok, hanswer⟩ := answer_scripted (v := v) hf c
      rw [Prog.run_call, hanswer]
      exact ih _ hrest

/-- What was called stays in the log. -/
theorem mem_log_run {outside : Nat → Turn} {e : Event} (p : Prog Call Answer α) {w : World}
    (he : e ∈ w.log) : e ∈ (Prog.run (answer outside) p w).2.log :=
  Prog.run_invariant (I := fun w => e ∈ w.log) (fun _ _ h => List.mem_cons_of_mem _ h) p w he

end

section
variable {service : Service} {uuid : JsString} {x : Spot} {prepared : Prepared}
  {faults : List (Option Fault)} {u u' : Volume}

/-- After any calls of an operation, the next one is again one of its own. -/
theorem own_next (hat : prepared.At service uuid x) (hstands : u.Stands x.dir)
    (hhonest : ∀ f ∈ faults, HonestFault f) {c : Call}
    {next : Answer c → Prog Call Answer (Except Thrown MutationResult)}
    (h : Prog.Steps respond (prepared.operation service uuid).run u faults (.call c next) u') :
    Own x u' c := by
  have hend : Owned x (Prog.run (answer (scripted faults))
      (prepared.operation service uuid).run ⟨u, []⟩).2 := by
    have hwp := own_operation (alone_scripted faults) (honest_scripted hhonest) hat
      (w := ⟨u, []⟩) ⟨hstands, List.forall_mem_nil _⟩
    rw [Async.wp_iff] at hwp
    split at hwp <;> exact hwp
  obtain ⟨log, hrun⟩ := run_of_steps h [] rfl
  have hmem : ∃ e ∈ (Prog.run (answer (scripted faults))
      (prepared.operation service uuid).run ⟨u, []⟩).2.log, e.call = c ∧ e.before = u' := by
    rw [hrun, Prog.run_call]
    exact ⟨_, mem_log_run _ List.mem_cons_self, rfl, rfl⟩
  obtain ⟨e, he, rfl, rfl⟩ := hmem
  exact hend.own e he

end

end Benchhand.Filesystem
