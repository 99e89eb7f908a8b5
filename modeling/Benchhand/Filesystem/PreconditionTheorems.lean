/-
Benchhand.Filesystem.PreconditionTheorems — preconditions against other processes.

A create-only write gives the name of the target away by a link, and a link
never takes a name that is taken (`create_only`). A digest is compared before
the rename and not in it: the file that is replaced has the expected digest
just when no other process has changed it since the last comparison
(`hash_checked_iff`).
-/
import Benchhand.Filesystem.MutationTheorems

namespace Benchhand.Filesystem

open Text Posix Process

/-! ## Create-only writes -/

section
variable {outside : Nat → Turn} {target temp : JsString} {stage : Stage} {log : List Event}
  {v u : Volume}

theorem Keeps.of_unchanged {e : Event} (h : e.after = e.before) : Keeps target e := by
  intro place node _ hnode
  rw [h, hnode]

/-- Without a rename, no call of the protocol changes what has the name. -/
theorem Proceeds.keeps {name name' : Name} (htarget : EndsWith target name)
    (htemp : EndsWith temp name') (hne : name ≠ name') (h : Proceeds target temp stage log)
    (hchained : Chained outside v log u) (hrename : ∀ e ∈ log, e.call ≠ .rename temp target) :
    ∀ e ∈ log, Keeps target e := by
  have hlast {e : Event} {place : Path} (hlocate : e.before.locate false target = .ok place) :
      place.getLast? ≠ some name' := by
    rw [htarget.getLast? hlocate]
    exact fun heq => hne (Option.some.inj heq)
  have hother {e : Event} {place place' : Path} (hlocate : e.before.locate false target = .ok place)
      (hplace' : place'.getLast? = some name') : place ≠ place' := by
    rintro rfl
    exact hlast hlocate hplace'
  induction h generalizing u with
  | start => exact List.forall_mem_nil _
  | look _ hcall ih =>
      obtain _ | ⟨hchained, htook⟩ := hchained
      obtain ⟨-, hrename⟩ := List.forall_mem_cons.mp hrename
      exact List.forall_mem_cons.mpr ⟨.of_unchanged (htook.readOnly hcall), ih hchained hrename⟩
  | refused _ hcall hok ih =>
      obtain _ | ⟨hchained, htook⟩ := hchained
      obtain ⟨-, hrename⟩ := List.forall_mem_cons.mp hrename
      exact List.forall_mem_cons.mpr ⟨.of_unchanged (htook.refused hcall hok), ih hchained hrename⟩
  | create _ mode hcall hok hplace ih =>
      obtain _ | ⟨hchained, htook⟩ := hchained
      obtain ⟨-, hrename⟩ := List.forall_mem_cons.mp hrename
      refine List.forall_mem_cons.mpr ⟨fun place node hlocate hnode => ?_, ih hchained hrename⟩
      rw [(htook.creates hcall hok hplace).frame place (hother hlocate (htemp.getLast? hplace)),
        hnode]
  | edit h hcall ih =>
      obtain _ | ⟨hchained, htook⟩ := hchained
      obtain ⟨-, hrename⟩ := List.forall_mem_cons.mp hrename
      refine List.forall_mem_cons.mpr ⟨fun place node hlocate hnode => ?_, ih hchained hrename⟩
      rw [(htook.edits hcall).1 place (hother hlocate (h.getLast? htemp rfl)), hnode]
  | link _ hcall hok ih =>
      obtain _ | ⟨hchained, htook⟩ := hchained
      obtain ⟨-, hrename⟩ := List.forall_mem_cons.mp hrename
      refine List.forall_mem_cons.mpr ⟨fun place node hlocate hnode => ?_, ih hchained hrename⟩
      obtain ⟨a, hperform⟩ := htook.performed hok
      revert a
      rw [hcall]
      intro a hperform
      obtain ⟨free, -, -, hfree, hnone, -⟩ := perform_link hperform
      -- the name was free
      rw [Except.ok.inj (hlocate.symm.trans hfree), hnone] at hnode
      cases hnode
  | rename _ hcall _ _ => exact absurd hcall (hrename _ List.mem_cons_self)
  | removeStaged _ hcall ih =>
      obtain _ | ⟨hchained, htook⟩ := hchained
      obtain ⟨-, hrename⟩ := List.forall_mem_cons.mp hrename
      refine List.forall_mem_cons.mpr ⟨fun place node hlocate hnode => ?_, ih hchained hrename⟩
      rw [htook.removed htemp hcall (hlast hlocate), hnode]
  | removeLinked _ hcall ih =>
      obtain _ | ⟨hchained, htook⟩ := hchained
      obtain ⟨-, hrename⟩ := List.forall_mem_cons.mp hrename
      refine List.forall_mem_cons.mpr ⟨fun place node hlocate hnode => ?_, ih hchained hrename⟩
      rw [htook.removed htemp hcall (hlast hlocate), hnode]

end

/-- A link of a name that is taken fails with `EEXIST`, whatever else may fail. -/
def AtomicLinks (outside : Nat → Turn) : Prop :=
  ∀ n u fault old new, Present new u → (outside n).fault (.link old new) u = some fault →
    fault.errno.code = js "EEXIST"

section
variable {outside : Nat → Turn} {service : Service} {uuid : JsString} {options : WriteOptions}
  {target temp : JsString} {w : World}

/-- Nothing is renamed, and no link is tried while its name is taken. -/
def Orderly (target temp : JsString) (e : Event) : Prop :=
  (∀ old new, e.call ≠ .rename old new) ∧ (e.call = .link temp target → ¬ Present target e.before)

/-- A link was tried while its name was taken, and the conflict was thrown. -/
structure Conflicted (error : Thrown) (w : World) : Prop where
  thrown : ∃ e, error = .filesystem e ∧ e.code = .writeConflict
  unrenamed : ∀ e ∈ w.log, ∀ old new, e.call ≠ .rename old new

theorem orderly_of_placing {e : Event} (h : Placing e.call) : Orderly target temp e :=
  ⟨h.2, fun hcall => absurd hcall (h.1 _ _)⟩

theorem Failed.eexist {turn : Turn} {old new : JsString} {v : Volume} {error : Errno}
    (h : Failed turn (.link old new) v error) (hpresent : Present new v)
    (hfault : ∀ fault, turn.fault (.link old new) v = some fault → fault.errno.code = js "EEXIST") :
    hasErrnoCode (.errno error) "EEXIST" = true := by
  obtain herror | ⟨fault, hfaulty, rfl⟩ := h
  · obtain ⟨place, node, hlocate, hnode⟩ := hpresent
    simp only [perform, Volume.link, hlocate, hnode, Option.isSome_some, if_true] at herror
    rw [← Except.error.inj herror]
    rfl
  · exact beq_iff_eq.mpr (hfault fault hfaulty)

/-- A name that a link gives away was free. -/
theorem Took.free {turn : Turn} {u : Volume} {e : Event} (h : Took turn u e)
    (hcall : e.call = .link temp target) (hok : e.ok = true) : ¬ Present target e.before := by
  obtain ⟨a, hperform⟩ := h.performed hok
  revert a
  rw [hcall]
  intro a hperform
  obtain ⟨place, -, -, hlocate, hfree, -⟩ := perform_link hperform
  rintro ⟨place', node, hlocate', hnode⟩
  rw [Except.ok.inj (hlocate'.symm.trans hlocate), hfree] at hnode
  cases hnode

theorem wp_commitTemp_create (hlinks : AtomicLinks outside)
    (hexpected : options.expectedSha256 = some none)
    (h : ∀ e ∈ w.log, Orderly options.target temp e) :
    Async.Wp (answer outside) (commitTemp options temp)
      (fun _ w' => ∀ e ∈ w'.log, Orderly options.target temp e)
      (fun error w' => (∀ e ∈ w'.log, Orderly options.target temp e) ∨ Conflicted error w') w := by
  unfold commitTemp
  rw [if_pos hexpected]
  refine Async.wp_bind.mpr (Async.wp_tryCatch.mpr (wp_call ?_ ?_))
  · intro _ e _ hcall hok htook
    have horderly : Orderly options.target temp e := by
      refine ⟨fun old new heq => ?_, fun _ => htook.free hcall hok⟩
      rw [hcall] at heq
      cases heq
    have hlinked := List.forall_mem_cons.mpr ⟨horderly, h⟩
    refine Async.wp_ignoreErrors.mpr (wp_call ?_ ?_)
    · intro _ e' _ hcall' _ _
      exact List.forall_mem_cons.mpr ⟨orderly_of_placing (hcall' ▸ placing_rm temp), hlinked⟩
    · intro _ e' _ hcall' _ _
      exact List.forall_mem_cons.mpr ⟨orderly_of_placing (hcall' ▸ placing_rm temp), hlinked⟩
  · intro error e hfailed hcall _ _
    have hrename : ∀ old new, e.call ≠ .rename old new := by
      intro old new heq
      rw [hcall] at heq
      cases heq
    by_cases hpresent : Present options.target e.before
    · rw [if_pos (hfailed.eexist hpresent fun fault hfault => hlinks _ _ fault _ _ hpresent hfault)]
      refine .inr ⟨⟨_, rfl, rfl⟩, List.forall_mem_cons.mpr ⟨hrename, fun e' he' => (h e' he').1⟩⟩
    · have hfailed : Orderly options.target temp e := ⟨hrename, fun _ => hpresent⟩
      have horderly := List.forall_mem_cons.mpr ⟨hfailed, h⟩
      split
      · exact .inl horderly
      · exact .inl horderly

theorem wp_writeBody_create (hlinks : AtomicLinks outside)
    (hexpected : options.expectedSha256 = some none) (initial : WriteTargetState)
    (h : ∀ e ∈ w.log, Orderly options.target (service.tempPath uuid options) e) :
    Local.Wp (answer outside) (service.writeBody uuid options initial)
      (fun _ _ w' => ∀ e ∈ w'.log, Orderly options.target (service.tempPath uuid options) e)
      (fun error _ w' => (∀ e ∈ w'.log, Orderly options.target (service.tempPath uuid options) e) ∨
        Conflicted error w') ⟨false, false⟩ w := by
  generalize htemp : service.tempPath uuid options = temp at h
  unfold Service.writeBody
  simp only [htemp]
  refine Local.wp_bind.mpr (Local.wp_lift.mpr (Async.wp_mapError.mpr (wp_call ?_ ?_)))
  · intro handle e _ hcall _ _
    have hcreated := List.forall_mem_cons.mpr
      ⟨(orderly_of_placing (hcall ▸ placing_openExclusive _ _) : Orderly options.target temp e), h⟩
    refine Local.wp_bind.mpr (Local.wp_assign.mpr (Local.wp_bind.mpr (Local.wp_lift.mpr ?_)))
    refine (wp_all (uses_staging handle initial options.content) (fun e he => ?_) hcreated).mono
      (fun _ w₁ h₁ => ?_) fun _ w₁ h₁ => .inl h₁
    · exact orderly_of_placing (he.elim placing_of_readOnly placing_of_edits)
    refine Local.wp_bind.mpr (Local.wp_lift.mpr ?_)
    refine (wp_all (uses_inspectWriteTarget _ _ _) (fun e he => ?_) h₁).mono
      (fun before w₂ h₂ => ?_) fun _ w₂ h₂ => .inl h₂
    · exact orderly_of_placing (placing_of_readOnly he)
    refine Local.wp_bind.mpr (Local.wp_lift.mpr (wp_ofExcept (fun _ _ => ?_) fun _ _ => .inl h₂))
    refine Local.wp_bind.mpr (Local.wp_lift.mpr ?_)
    refine (wp_commitTemp_create hlinks hexpected h₂).mono (fun _ w₃ h₃ => ?_) fun _ w₃ h₃ => h₃
    refine Local.wp_bind.mpr (Local.wp_assign.mpr (Local.wp_bind.mpr (Local.wp_lift.mpr ?_)))
    refine Async.wp_tryCatch.mpr ((wp_all (uses_syncDirectory _) (fun e he => ?_) h₃).mono
      (fun _ w₄ h₄ => ?_) fun _ w₄ h₄ => ?_)
    · exact orderly_of_placing (placing_of_readOnly he)
    · exact h₄
    · exact h₄
  · intro _ e _ hcall _ _
    exact .inl (List.forall_mem_cons.mpr
      ⟨orderly_of_placing (hcall ▸ placing_openExclusive _ _), h⟩)

/-- The `finally` removes the staged file or does nothing, and never throws. -/
theorem wp_cleanup (s : TempState) {P : Event → Prop} (hP : ∀ e, Placing e.call → P e)
    (h : ∀ e ∈ w.log, P e) :
    Async.Wp (answer outside)
      (if s.tempExists && !s.renamed then (rm temp).ignoreErrors else pure ⟨⟩)
      (fun _ w' => ∀ e ∈ w'.log, P e) (fun _ _ => False) w := by
  split
  · refine Async.wp_ignoreErrors.mpr (wp_call ?_ ?_)
    · intro _ e _ hcall _ _
      exact List.forall_mem_cons.mpr ⟨hP e (hcall ▸ placing_rm temp), h⟩
    · intro _ e _ hcall _ _
      exact List.forall_mem_cons.mpr ⟨hP e (hcall ▸ placing_rm temp), h⟩
  · exact h

theorem wp_writeAtomic_create (hlinks : AtomicLinks outside)
    (hexpected : options.expectedSha256 = some none)
    (h : ∀ e ∈ w.log, Orderly options.target (service.tempPath uuid options) e) :
    Async.Wp (answer outside) (service.writeAtomic uuid options)
      (fun _ w' => ∀ e ∈ w'.log, Orderly options.target (service.tempPath uuid options) e)
      (fun error w' => (∀ e ∈ w'.log, Orderly options.target (service.tempPath uuid options) e) ∨
        Conflicted error w') w := by
  unfold Service.writeAtomic
  refine Async.wp_bind.mpr ((wp_all (uses_inspectWriteTarget _ _ _) (fun e he => ?_) h).mono
    (fun initial w₁ h₁ => ?_) fun _ w₁ h₁ => .inl h₁)
  · exact orderly_of_placing (placing_of_readOnly he)
  refine Async.wp_bind.mpr (wp_ofExcept (fun _ _ => ?_) fun _ _ => .inl h₁)
  refine Local.wp_tryFinally.mpr ((wp_writeBody_create hlinks hexpected initial h₁).mono
    (fun _ s w₂ h₂ => ?_) fun error s w₂ h₂ => ?_)
  · exact (wp_cleanup s (fun _ => orderly_of_placing) h₂).mono (fun _ _ h₃ => h₃)
      fun _ _ => False.elim
  · obtain horderly | ⟨hthrown, hunrenamed⟩ := h₂
    · exact (wp_cleanup s (fun _ => orderly_of_placing) horderly).mono (fun _ _ h₃ => .inl h₃)
        fun _ _ => False.elim
    · exact (wp_cleanup s (fun _ hplacing => hplacing.2) hunrenamed).mono
        (fun _ _ h₃ => .inr ⟨hthrown, h₃⟩) fun _ _ => False.elim

/-- What a create-only write has called, once its target is found. -/
theorem orderly_write (hlinks : AtomicLinks outside) {request : WriteRequest}
    (hexpected : request.expectedSha256 = some none) (hw : w.log = []) {w₁ : World}
    (hnames : Prog.run (answer outside) (Mutation.names service uuid (.write request)).run w =
      (.ok (target, temp), w₁)) :
    Async.Wp (answer outside) (service.write uuid request)
      (fun _ w' => ∀ e ∈ w'.log, Orderly target temp e)
      (fun error w' => (∀ e ∈ w'.log, Orderly target temp e) ∨ Conflicted error w') w := by
  have hreads : ∀ e ∈ w₁.log, ReadOnly e.call := by
    have h : Async.Wp (answer outside) (Mutation.names service uuid (.write request)) _ _ w :=
      reads_names (.write request) hw
    rwa [Async.wp_iff, hnames] at h
  obtain ⟨options, hprepare, heq⟩ := Async.run_map_ok.mp hnames
  cases heq
  have hprepared : Async.Wp (answer outside) (service.prepareWrite request) _ _ w :=
    wp_prepareWrite
  rw [Async.wp_iff, hprepare, hexpected] at hprepared
  have hoptions : options.expectedSha256 = some none := (Except.ok.inj hprepared.1).symm
  have hatomic : Async.Wp (answer outside) (service.writeAtomic uuid options) _ _ w₁ :=
    wp_writeAtomic_create hlinks hoptions fun e he =>
      orderly_of_placing (placing_of_readOnly (hreads e he))
  rw [Async.wp_iff] at hatomic ⊢
  rwa [show Prog.run (answer outside) (service.write uuid request).run w = _ from
    Async.run_bind_of_ok hprepare]

/-- A create-only write never overwrites, whatever other processes do. -/
theorem create_only (hpid : slash ∉ service.pid) (huuid : slash ∉ uuid)
    (hlinks : AtomicLinks outside) {request : WriteRequest}
    (hexpected : request.expectedSha256 = some none) {v : Volume}
    {outcome : Except Thrown WriteResult}
    (hrun : Prog.run (answer outside) (service.write uuid request).run ⟨v, []⟩ = (outcome, w)) :
    (∀ target temp w₁,
      Prog.run (answer outside) (Mutation.names service uuid (.write request)).run ⟨v, []⟩ =
        (.ok (target, temp), w₁) → CreateOnly target temp outcome w) ∧
    (∀ error w₁,
      Prog.run (answer outside) (Mutation.names service uuid (.write request)).run ⟨v, []⟩ =
        (.error error, w₁) → outcome.toBool = false ∧ ∀ e ∈ w.log, ReadOnly e.call) := by
  have hchained : Chained outside v w.log w.vol := by
    rw [show w = (Prog.run (answer outside) (service.write uuid request).run ⟨v, []⟩).2 from
      (congrArg Prod.snd hrun).symm]
    exact chained_run _ v
  constructor
  · intro target temp w₁ hnames
    obtain ⟨name, name', htarget, htemp, hne⟩ := endsWith_names hpid huuid hnames
    obtain ⟨stage, hproceeds, -, hcommitted⟩ := ended_mutation (.write request) rfl hnames
    change Proceeds target temp stage
      (Prog.run (answer outside) (service.write uuid request).run ⟨v, []⟩).2.log at hproceeds
    change stage.committed =
      (Prog.run (answer outside) (service.write uuid request).run ⟨v, []⟩).1.toBool at hcommitted
    have horderly := orderly_write hlinks hexpected rfl hnames
    rw [Async.wp_iff] at horderly
    rw [hrun] at hproceeds hcommitted horderly
    have hcases : (∀ e ∈ w.log, Orderly target temp e) ∨
        ∃ error, outcome = .error error ∧ Conflicted error w := by
      cases outcome with
      | ok result => exact .inl horderly
      | error error => exact horderly.imp_right fun h => ⟨error, rfl, h⟩
    have hrename : ∀ e ∈ w.log, ∀ old new, e.call ≠ .rename old new := by
      obtain hall | ⟨error, -, hconflict⟩ := hcases
      · exact fun e he => (hall e he).1
      · exact hconflict.unrenamed
    refine ⟨hproceeds.keeps htarget htemp hne hchained fun e he => hrename e he _ _,
      hcommitted ▸ hproceeds.committed_iff, fun e he hcommits => ?_, ?_⟩
    · obtain ⟨hok, hcall | hcall⟩ := hcommits
      · obtain ⟨n, u, htook⟩ := hchained.took e he
        exact htook.free hcall hok
      · exact absurd hcall (hrename e he _ _)
    · rintro ⟨e, he, hcall, hpresent⟩
      obtain hall | ⟨error, rfl, ⟨e', rfl, hcode⟩, -⟩ := hcases
      · exact absurd hpresent ((hall e he).2 hcall)
      · exact ⟨e', rfl, hcode⟩
  · intro error w₁ hnames
    obtain ⟨hrejected, hreads⟩ := refused_mutation (.write request) rfl hnames
    change (Prog.run (answer outside) (service.write uuid request).run ⟨v, []⟩).1.toBool = false
      at hrejected
    change ∀ e ∈ (Prog.run (answer outside) (service.write uuid request).run ⟨v, []⟩).2.log,
      ReadOnly e.call at hreads
    rw [hrun] at hrejected hreads
    exact ⟨hrejected, hreads⟩

end

/-- Another process that writes a file of the workspace before one of the calls. -/
def intruder (k : Nat) (name : Name) (content : Bytes) : Nat → Turn := fun n =>
  ⟨fun v => if n = k then v.put ["ws".toList, name] (.file content 0o644) else v, fun _ _ => none⟩

/-- A create-only write whose target appears just before the link. -/
def racedWrite : Except Thrown WriteResult × World :=
  Prog.run (answer (intruder 9 "b".toList [7]))
    (oneWorkspace.write (js "u") ⟨js "ws", js "b", js "é", some none⟩).run ⟨oneFile [], []⟩

theorem create_only_raced :
    CreateOnly (js "/ws/b") (js "/ws/.b.benchhand-write-1-u.tmp") racedWrite.1 racedWrite.2 := by
  have hlinks : AtomicLinks (intruder 9 "b".toList [7]) := by
    intro n u fault old new _ hfault
    cases hfault
  have hnames : (Prog.run (answer (intruder 9 "b".toList [7])) (Mutation.names oneWorkspace (js "u")
      (.write ⟨js "ws", js "b", js "é", some none⟩)).run ⟨oneFile [], []⟩).1 =
        .ok (js "/ws/b", js "/ws/.b.benchhand-write-1-u.tmp") := by
    decide +kernel
  exact (create_only (by decide) (by decide) hlinks rfl rfl).1 _ _ _ (Prod.ext hnames rfl)

/-! ## Digests -/

/-- At every commit, the last opening of the target has found the digest. -/
def Verified (service : Service) (target temp expected : JsString) (log : List Event) : Prop :=
  ∀ e earlier, e :: earlier <:+ log → Commits target temp e →
    service.openedDigest target earlier = some expected

section
variable {service : Service} {target temp expected : JsString} {log : List Event} {e : Event}

theorem verified_nil : Verified service target temp expected [] := by
  intro e earlier hsuffix
  exact absurd (List.suffix_nil.mp hsuffix) (List.cons_ne_nil _ _)

theorem Verified.cons (h : Verified service target temp expected log)
    (hcommits : Commits target temp e → service.openedDigest target log = some expected) :
    Verified service target temp expected (e :: log) := by
  intro e' earlier hsuffix
  obtain heq | hsuffix := List.suffix_cons_iff.mp hsuffix
  · obtain ⟨rfl, rfl⟩ := List.cons.inj heq
    exact hcommits
  · exact h e' earlier hsuffix

theorem Verified.placing (h : Verified service target temp expected log) (hcall : Placing e.call) :
    Verified service target temp expected (e :: log) := by
  refine h.cons fun hcommits => ?_
  obtain ⟨-, hlink | hrename⟩ := hcommits
  · exact absurd hlink (hcall.1 _ _)
  · exact absurd hrename (hcall.2 _ _)

/-- The condition is exact where every commit was verified. -/
theorem Verified.checked_iff {w : World} (h : Verified service target temp expected w.log) :
    HashChecked service target temp expected w ↔ DigestKept service target temp w := by
  constructor
  · intro hchecked e earlier hsuffix hcommits
    rw [h e earlier hsuffix hcommits]
    exact hchecked e (hsuffix.subset List.mem_cons_self) hcommits
  · intro hkept e he hcommits
    obtain ⟨later, earlier, heq⟩ := List.append_of_mem he
    have hsuffix : e :: earlier <:+ w.log := ⟨later, heq.symm⟩
    rw [hkept e earlier hsuffix hcommits, h e earlier hsuffix hcommits]

end

section
variable {outside : Nat → Turn} {service : Service} {uuid : JsString} {options : WriteOptions}
  {target temp expected : JsString} {w : World}

/-- The whole file is hashed, as it was when it was opened. -/
theorem wp_hashedFrom {handle : Handle} : ∀ (fuel position : Nat) (hashed : Bytes) (w : World),
    (∀ bytes mode, handle.node = .file bytes mode → hashed = bytes.take position) →
    Async.Wp (answer outside) (hashedFrom handle fuel position hashed)
      (fun all _ => ∃ mode, handle.node = .file all mode) (fun _ _ => True) w
  | 0, _, _, _, _ => trivial
  | fuel + 1, position, hashed, w, h => by
      unfold hashedFrom
      split
      · trivial
      refine Async.wp_bind.mpr (wp_call ?_ fun _ _ _ _ _ _ => trivial)
      intro chunk e hperform _ _ _
      obtain ⟨bytes, mode, hnode, rfl⟩ := perform_read hperform
      rw [h bytes mode hnode]
      split
      · rename_i hnil
        have hend : bytes.drop position = [] :=
          (List.take_eq_nil_iff.mp hnil).resolve_left (by decide)
        rw [List.take_of_length_le (List.drop_eq_nil_iff.mp hend)]
        exact Async.wp_pure.mpr ⟨mode, hnode⟩
      · refine wp_hashedFrom fuel _ _ _ fun bytes' mode' hnode' => ?_
        obtain ⟨rfl, rfl⟩ := Node.file.inj (hnode.symm.trans hnode')
        rw [List.take_add, List.length_take]
        congr 1
        rw [List.take_eq_take_min, List.length_drop, Nat.min_comm]

theorem openedDigest_cons (e : Event) (log : List Event) (h : opensTarget target e = false) :
    service.openedDigest target (e :: log) = service.openedDigest target log := by
  rw [Service.openedDigest, List.find?_cons_of_neg (by simp [h]), Service.openedDigest]

/-- A digest is that of what the last opening has found. -/
theorem wp_sha256File {path : JsString} : Async.Wp (answer outside) (service.sha256File target path)
    (fun digest w' => service.openedDigest target w'.log = some digest) (fun _ _ => True) w := by
  unfold Service.sha256File
  refine Async.wp_bind.mpr (Async.wp_mapError.mpr (wp_call ?_ fun _ _ _ _ _ _ => trivial))
  intro handle e hperform hcall hok _
  obtain ⟨-, hlocate, hnode⟩ := perform_openRead.mp hperform
  have hopens : opensTarget target e = true := by
    unfold opensTarget
    rw [hcall, hok]
    exact beq_self_eq_true target
  have hopened (log : List Event) {bytes : Bytes} {mode : Mode} (hfile : handle.node = .file bytes mode) :
      service.openedDigest target (e :: log) = some (service.sha256 bytes) := by
    rw [Service.openedDigest, List.find?_cons_of_pos hopens, Option.bind_some, Service.digestAt,
      Volume.lookup_ok.mpr ⟨hlocate, hnode⟩, hfile]
  have huses : Async.Uses (fun c => ∀ p, c ≠ .openRead p)
      (tryFinally (hashedFrom handle (maxSafeInteger + 2) 0 []) (Handle.close handle)) :=
    Async.uses_tryFinally (uses_hashedFrom (fun _ _ => Call.noConfusion) _ _ _)
      (Async.uses_request fun _ => Call.noConfusion)
  refine Async.wp_bind.mpr ?_
  have hkeeps : Async.Wp (answer outside) _ _ _ ⟨e.after, e :: w.log⟩ := wp_uses huses
    (I := fun w' => service.openedDigest target w'.log = service.openedDigest target (e :: w.log))
    (fun c w' e' hc hI hcall' _ => ?_) rfl
  · have hvalue : Async.Wp (answer outside)
        (tryFinally (hashedFrom handle (maxSafeInteger + 2) 0 []) (Handle.close handle))
        (fun all _ => ∃ mode, handle.node = .file all mode) (fun _ _ => True)
        ⟨e.after, e :: w.log⟩ := by
      refine Async.wp_tryFinally.mpr ((wp_hashedFrom _ 0 [] _ fun _ _ _ => rfl).mono
        (fun all w₁ hfile => wp_call ?_ ?_) fun _ w₁ _ => wp_call ?_ ?_)
      · exact fun _ _ _ _ _ _ => hfile
      · exact fun _ _ _ _ _ _ => trivial
      · exact fun _ _ _ _ _ _ => trivial
      · exact fun _ _ _ _ _ _ => trivial
    refine (hvalue.and hkeeps).mono ?_ fun _ _ _ => trivial
    rintro all w' ⟨⟨mode, hfile⟩, hlog⟩
    exact Async.wp_pure.mpr (hlog.trans (hopened w.log hfile))
  · have hquiet : opensTarget target e' = false := by
      unfold opensTarget
      split
      · rename_i p heq
        exact absurd (hcall'.symm.trans heq) (hc p)
      · rfl
    exact (openedDigest_cons e' w'.log hquiet).trans hI

theorem wp_inspectWriteTarget {path : JsString} :
    Async.Wp (answer outside) (service.inspectWriteTarget target path)
      (fun state w' => state.existing = true →
        state.sha256 = service.openedDigest target w'.log) (fun _ _ => True) w := by
  have hthrows {α : Type} (p : Async α) : Async.Wp (answer outside) p (fun _ _ => True)
      (fun _ _ => True) w := by
    rw [Async.wp_iff]
    split <;> trivial
  unfold Service.inspectWriteTarget
  refine Async.wp_bind.mpr ((hthrows _).mono (fun stats w₁ _ => ?_) fun _ _ _ => trivial)
  cases stats with
  | none => exact fun hfalse => absurd hfalse (by decide)
  | some stats =>
      refine Async.wp_bind.mpr (wp_failWhen (fun _ => ?_) fun _ => trivial)
      refine Async.wp_bind.mpr (wp_failWhen (fun _ => ?_) fun _ => trivial)
      refine Async.wp_bind.mpr (wp_sha256File.mono (fun digest w₂ h => ?_) fun _ _ _ => trivial)
      exact Async.wp_pure.mpr fun _ => h.symm

/-- Calls that put nothing in place keep what was verified. -/
theorem wp_verified {α : Type} {p : Async α} (hp : Async.Uses Placing p)
    (h : Verified service target temp expected w.log) :
    Async.Wp (answer outside) p (fun _ w' => Verified service target temp expected w'.log)
      (fun _ w' => Verified service target temp expected w'.log) w :=
  wp_uses hp (fun _ _ _ hc hI hcall _ => hI.placing (hcall ▸ hc)) h

theorem wp_inspect_verified {path : JsString}
    (h : Verified service target temp expected w.log) :
    Async.Wp (answer outside) (service.inspectWriteTarget target path)
      (fun state w' => Verified service target temp expected w'.log ∧
        (state.existing = true → state.sha256 = service.openedDigest target w'.log))
      (fun _ w' => Verified service target temp expected w'.log) w :=
  ((wp_verified (placing_of_uses (uses_inspectWriteTarget service target path)) h).and
    wp_inspectWriteTarget).mono (fun _ _ h' => h') fun _ _ h' => h'.1

theorem enforceWritePrecondition_digest {path : JsString} {state : WriteTargetState} {u : PUnit}
    (h : enforceWritePrecondition (some (some expected)) state path = .ok u) :
    state.existing = true ∧ state.sha256 = some expected := by
  unfold enforceWritePrecondition at h
  dsimp only at h
  split at h
  · cases h
  · simp_all

theorem wp_commitTemp_verified (hexpected : options.expectedSha256 = some (some expected))
    (h : Verified service options.target temp expected w.log)
    (hopened : service.openedDigest options.target w.log = some expected) :
    Async.Wp (answer outside) (commitTemp options temp)
      (fun _ w' => Verified service options.target temp expected w'.log)
      (fun _ w' => Verified service options.target temp expected w'.log) w := by
  unfold commitTemp
  rw [if_neg (by simp [hexpected])]
  refine Async.wp_mapError.mpr (wp_call ?_ ?_)
  · exact fun _ _ _ _ _ _ => h.cons fun _ => hopened
  · exact fun _ _ _ _ _ _ => h.cons fun _ => hopened

theorem wp_writeBody_verified (hexpected : options.expectedSha256 = some (some expected))
    (initial : WriteTargetState)
    (h : Verified service options.target (service.tempPath uuid options) expected w.log) :
    Local.Wp (answer outside) (service.writeBody uuid options initial)
      (fun _ _ w' =>
        Verified service options.target (service.tempPath uuid options) expected w'.log)
      (fun _ _ w' =>
        Verified service options.target (service.tempPath uuid options) expected w'.log)
      ⟨false, false⟩ w := by
  generalize htemp : service.tempPath uuid options = temp at h
  unfold Service.writeBody
  simp only [htemp]
  refine Local.wp_bind.mpr (Local.wp_lift.mpr (Async.wp_mapError.mpr (wp_call ?_ ?_)))
  · intro handle e _ hcall _ _
    have hcreated := h.placing (hcall ▸ placing_openExclusive _ _ : Placing e.call)
    refine Local.wp_bind.mpr (Local.wp_assign.mpr (Local.wp_bind.mpr (Local.wp_lift.mpr ?_)))
    have hstaging := Prog.Uses.mono (fun _ hc => hc.elim placing_of_readOnly placing_of_edits)
      (uses_staging handle initial options.content)
    refine (wp_verified hstaging hcreated).mono (fun _ w₁ h₁ => ?_) fun _ w₁ h₁ => h₁
    refine Local.wp_bind.mpr (Local.wp_lift.mpr ?_)
    refine (wp_inspect_verified h₁).mono (fun before w₂ h₂ => ?_) fun _ w₂ h₂ => h₂
    refine Local.wp_bind.mpr (Local.wp_lift.mpr (wp_ofExcept (fun _ henforce => ?_)
      fun _ _ => h₂.1))
    rw [hexpected] at henforce
    obtain ⟨hexisting, hdigest⟩ := enforceWritePrecondition_digest henforce
    refine Local.wp_bind.mpr (Local.wp_lift.mpr ?_)
    refine (wp_commitTemp_verified hexpected h₂.1 ((h₂.2 hexisting).symm.trans hdigest)).mono
      (fun _ w₃ h₃ => ?_) fun _ w₃ h₃ => h₃
    refine Local.wp_bind.mpr (Local.wp_assign.mpr (Local.wp_bind.mpr (Local.wp_lift.mpr ?_)))
    refine Async.wp_tryCatch.mpr ((wp_verified (placing_of_uses (uses_syncDirectory _)) h₃).mono
      (fun _ w₄ h₄ => ?_) fun _ w₄ h₄ => ?_)
    · exact h₄
    · exact h₄
  · intro _ e _ hcall _ _
    exact h.placing (hcall ▸ placing_openExclusive _ _)

theorem wp_writeAtomic_verified (hexpected : options.expectedSha256 = some (some expected))
    (h : Verified service options.target (service.tempPath uuid options) expected w.log) :
    Async.Wp (answer outside) (service.writeAtomic uuid options)
      (fun _ w' =>
        Verified service options.target (service.tempPath uuid options) expected w'.log)
      (fun _ w' =>
        Verified service options.target (service.tempPath uuid options) expected w'.log) w := by
  unfold Service.writeAtomic
  refine Async.wp_bind.mpr ((wp_verified (placing_of_uses (uses_inspectWriteTarget _ _ _)) h).mono
    (fun initial w₁ h₁ => ?_) fun _ w₁ h₁ => h₁)
  refine Async.wp_bind.mpr (wp_ofExcept (fun _ _ => ?_) fun _ _ => h₁)
  have hcleanup (s : TempState) : Async.Uses Placing
      (if s.tempExists && !s.renamed then (rm (service.tempPath uuid options)).ignoreErrors
        else pure ⟨⟩) := by
    split
    · exact Async.uses_ignoreErrors (Async.uses_request (placing_rm _))
    · exact Async.uses_pure
  refine Local.wp_tryFinally.mpr ((wp_writeBody_verified hexpected initial h₁).mono
    (fun _ s w₂ h₂ => ?_) fun _ s w₂ h₂ => ?_)
  · exact wp_verified (hcleanup s) h₂
  · exact wp_verified (hcleanup s) h₂

theorem verified_of_reads : ∀ {log : List Event}, (∀ e ∈ log, ReadOnly e.call) →
    Verified service target temp expected log
  | [], _ => verified_nil
  | _ :: _, h => (verified_of_reads fun e' he' => h e' (List.mem_cons_of_mem _ he')).placing
      (placing_of_readOnly (h _ List.mem_cons_self))

theorem verified_of_wp {α : Type} {p : Async α} (h : Async.Wp (answer outside) p
    (fun _ w' => Verified service target temp expected w'.log)
    (fun _ w' => Verified service target temp expected w'.log) w) :
    Verified service target temp expected (Prog.run (answer outside) p.run w).2.log := by
  rw [Async.wp_iff] at h
  split at h <;> exact h

theorem verified_write {request : WriteRequest} {w₁ : World}
    (hprepare : Prog.run (answer outside) (service.prepareWrite request).run w = (.ok options, w₁))
    (hexpected : options.expectedSha256 = some (some expected))
    (h : Verified service options.target (service.tempPath uuid options) expected w₁.log) :
    Verified service options.target (service.tempPath uuid options) expected
      (Prog.run (answer outside) (service.write uuid request).run w).2.log := by
  rw [show Prog.run (answer outside) (service.write uuid request).run w = _ from
    Async.run_bind_of_ok hprepare]
  exact verified_of_wp (wp_writeAtomic_verified hexpected h)

theorem verified_patch {request : PatchRequest} {options : PatchOptions} {w₁ : World}
    (hprepare : Prog.run (answer outside) (service.preparePatch request).run w = (.ok options, w₁))
    (h : Verified service options.target (service.tempPath uuid (Mutation.patched options []))
      options.expectedSha256 w₁.log) :
    Verified service options.target (service.tempPath uuid (Mutation.patched options []))
      options.expectedSha256
      (Prog.run (answer outside) (service.patch uuid request).run w).2.log := by
  rw [show Prog.run (answer outside) (service.patch uuid request).run w = _ from
    Async.run_bind_of_ok hprepare]
  refine verified_of_wp ?_
  rw [Async.wp_bind]
  refine (wp_verified (placing_of_uses (uses_patchedContent service options)) h).mono
    (fun found w₂ h₂ => ?_) fun _ w₂ h₂ => h₂
  obtain ⟨content, editsApplied⟩ := found
  rw [Async.wp_bind, Async.wp_tryCatch]
  have hatomic : Async.Wp (answer outside)
      (service.writeAtomic uuid (Mutation.patched options content)) _ _ w₂ :=
    wp_writeAtomic_verified rfl h₂
  refine hatomic.mono (fun _ w₃ h₃ => h₃) fun error w₃ h₃ => ?_
  exact (wp_verified (placing_of_uses (uses_patchFailure service options error)) h₃).mono
    (fun _ _ h₄ => h₄) fun _ _ h₄ => h₄

/-- Every commit of a mutation with a digest was verified. -/
theorem verified_mutation {m : Mutation} (hdigest : m.digest? = some expected) {w₁ : World}
    (hw : w.log = []) (hnames : Prog.run (answer outside) (m.names service uuid).run w =
      (.ok (target, temp), w₁)) :
    Verified service target temp expected
      (Prog.run (answer outside) (m.run service uuid).run w).2.log := by
  have hreads : ∀ e ∈ w₁.log, ReadOnly e.call := by
    have h : Async.Wp (answer outside) (m.names service uuid) _ _ w := reads_names m hw
    rwa [Async.wp_iff, hnames] at h
  cases m with
  | write request =>
      obtain ⟨options, hprepare, heq⟩ := Async.run_map_ok.mp hnames
      cases heq
      have hprepared : Async.Wp (answer outside) (service.prepareWrite request) _ _ w :=
        wp_prepareWrite
      rw [Async.wp_iff, hprepare] at hprepared
      have hexpected : options.expectedSha256 = some (some expected) := by
        rw [Mutation.digest?, hprepared.1] at hdigest
        obtain hnone | ⟨_ | value, hvalue⟩ := Option.eq_none_or_eq_some options.expectedSha256
        · rw [hnone] at hdigest
          cases hdigest
        · rw [hvalue] at hdigest
          cases hdigest
        · rw [hvalue] at hdigest
          rw [hvalue, Option.some.inj hdigest]
      exact verified_write hprepare hexpected (verified_of_reads hreads)
  | patch request =>
      obtain ⟨options, hprepare, heq⟩ := Async.run_map_ok.mp hnames
      cases heq
      have hprepared : Async.Wp (answer outside) (service.preparePatch request) _ _ w :=
        wp_preparePatch
      rw [Async.wp_iff, hprepare] at hprepared
      rw [Mutation.digest?, hprepared.1] at hdigest
      obtain rfl := Option.some.inj hdigest
      exact verified_patch hprepare (verified_of_reads hreads)

/-- The file that a mutation replaces has the expected digest just when its
digest is still the one that the last opening of the target has found. -/
theorem hash_checked_iff {m : Mutation} (hdigest : m.digest? = some expected) {v : Volume}
    {outcome : Except Thrown m.Result} {w₁ : World}
    (hrun : Prog.run (answer outside) (m.run service uuid).run ⟨v, []⟩ = (outcome, w))
    (hnames : Prog.run (answer outside) (m.names service uuid).run ⟨v, []⟩ =
      (.ok (target, temp), w₁)) :
    HashChecked service target temp expected w ↔ DigestKept service target temp w := by
  have h := verified_mutation hdigest rfl hnames
  rw [hrun] at h
  exact h.checked_iff

end

/-- Over the positions of the log. -/
theorem digestKept_iff {service : Service} {target temp : JsString} {w : World} :
    DigestKept service target temp w ↔ ∀ n < w.log.length, ∀ e ∈ w.log[n]?,
      Commits target temp e → service.digestAt false target e.before =
        service.openedDigest target (w.log.drop (n + 1)) := by
  constructor
  · intro h n hn e he hcommits
    obtain ⟨_, rfl⟩ := List.getElem?_eq_some_iff.mp he
    exact h _ _ (List.drop_eq_getElem_cons hn ▸ List.drop_suffix n w.log) hcommits
  · intro h e earlier hsuffix hcommits
    obtain ⟨later, hlog⟩ := hsuffix
    have hlength : later.length < w.log.length := by simp [← hlog]
    have hat : w.log[later.length]? = some e := by simp [← hlog]
    have hdrop : w.log.drop (later.length + 1) = earlier := by simp [← hlog]
    exact hdrop ▸ h _ hlength e hat hcommits

/-- The workspace with the digests of the contents that are used below. -/
def digestWorkspace : Service :=
  { oneWorkspace with
    sha256 := fun bytes =>
      if bytes = [] then js "e3b0c44298fc1c149afbf4c8996fb92427ae41e4649b934ca495991b7852b855"
      else if bytes = encodeUtf8 (js "a") then
        js "ca978112ca1bbdcafac231b39a23dc4da786eff8147c4e72b9807785afee48bb"
      else js "3e23e8160039594a33894f6564e1b1348bbd7a0088d42c4acb73eeaed59c009d" }

/-- `b` is to be written over the empty file. -/
def overEmpty : Mutation :=
  .write ⟨js "ws", js "a", js "b",
    some (some (js "e3b0c44298fc1c149afbf4c8996fb92427ae41e4649b934ca495991b7852b855"))⟩

/-- The same, with another process that writes `a` just before the rename. -/
def hashRaced : Except Thrown overEmpty.Result × World :=
  Prog.run (answer (intruder 16 "a".toList (encodeUtf8 (js "a"))))
    (overEmpty.run digestWorkspace (js "u")).run ⟨oneFile [], []⟩

/-- The same, when what the other process writes is empty too. -/
def hashRewritten : Except Thrown overEmpty.Result × World :=
  Prog.run (answer (intruder 16 "a".toList [])) (overEmpty.run digestWorkspace (js "u")).run
    ⟨oneFile [], []⟩

theorem hash_checked_iff_rewritten :
    (∃ e ∈ hashRewritten.2.log, Commits (js "/ws/a") (js "/ws/.a.benchhand-write-1-u.tmp") e) ∧
    HashChecked digestWorkspace (js "/ws/a") (js "/ws/.a.benchhand-write-1-u.tmp")
      (js "e3b0c44298fc1c149afbf4c8996fb92427ae41e4649b934ca495991b7852b855") hashRewritten.2 ∧
    ¬ DigestKept digestWorkspace (js "/ws/a") (js "/ws/.a.benchhand-write-1-u.tmp")
      hashRaced.2 := by
  have hnames : ∀ content, content ∈ [[], encodeUtf8 (js "a")] →
      (Prog.run (answer (intruder 16 "a".toList content))
        (overEmpty.names digestWorkspace (js "u")).run ⟨oneFile [], []⟩).1 =
          .ok (js "/ws/a", js "/ws/.a.benchhand-write-1-u.tmp") := by
    decide +kernel
  have hkept : DigestKept digestWorkspace (js "/ws/a") (js "/ws/.a.benchhand-write-1-u.tmp")
      hashRewritten.2 := by
    rw [digestKept_iff]
    unfold Commits
    decide +kernel
  have hunchecked : ¬ HashChecked digestWorkspace (js "/ws/a")
      (js "/ws/.a.benchhand-write-1-u.tmp")
      (js "e3b0c44298fc1c149afbf4c8996fb92427ae41e4649b934ca495991b7852b855") hashRaced.2 := by
    unfold HashChecked Commits
    decide +kernel
  refine ⟨?_, ?_, ?_⟩
  · unfold Commits
    decide +kernel
  · exact (hash_checked_iff (by decide +kernel) rfl
      (Prod.ext (hnames [] (by decide)) rfl)).mpr hkept
  · exact fun h => hunchecked ((hash_checked_iff (by decide +kernel) rfl
      (Prod.ext (hnames _ (by decide)) rfl)).mpr h)

/-- The content `a` is overwritten, though another digest was expected. -/
theorem hash_raced :
    overEmpty.digest? =
        some (js "e3b0c44298fc1c149afbf4c8996fb92427ae41e4649b934ca495991b7852b855") ∧
      hashRaced.1.toBool = true ∧
      ¬ HashChecked digestWorkspace (js "/ws/a") (js "/ws/.a.benchhand-write-1-u.tmp")
        (js "e3b0c44298fc1c149afbf4c8996fb92427ae41e4649b934ca495991b7852b855") hashRaced.2 := by
  unfold HashChecked Commits
  refine ⟨by decide +kernel, by decide +kernel, by decide +kernel⟩

end Benchhand.Filesystem
