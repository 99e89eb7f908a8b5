/-
Benchhand.Workspace.ManagedWorktreeTheorems — a managed worktree is outside its
repository.

The conflict check compares the repository with the root as
`canonicalizePotentialPath` gives it, which is where the root is once it is
made. A worktree has a name of its own there that nothing had before, so it is
not the repository either (`managed_worktrees`).
-/
import Benchhand.Workspace.ManagedRootTheorems

namespace Benchhand.Workspace

open Text Js Posix Process
open Filesystem (target target_nil components_target plain_target isSameOrDescendant
  isSameOrDescendant_target)

section
variable {s : Surroundings} {v : Volume} {added : List (LockedWorktree × Volume)}

/-! ## What functions reject with -/

/-- The exception is not that of a system call. -/
def Thrown.Own (e : Thrown) : Prop := ∀ code, hasErrnoCode e code = false

theorem own_registry (e : WorkspaceRegistryError) : (Thrown.registry e).Own := fun _ => rfl

theorem own_error (e : JsError) : (Thrown.error e).Own := fun _ => rfl

theorem own_classifyOpenPathError (path : JsString) (e : Thrown) :
    (classifyOpenPathError path e).Own := by
  unfold classifyOpenPathError
  split
  · exact own_registry _
  · split
    · exact own_registry _
    · split
      · exact own_registry _
      · exact own_registry _

variable {α : Type}

theorem stays_own {c : Call} (hc : c.Leaves) {answer : Answer c → Except Thrown α}
    (hanswer : ∀ r e, answer r = .error e → e.Own) :
    Stays s (.request c answer) (fun _ => True) Thrown.Own v added :=
  stays_request hc (fun _ _ _ _ => trivial) fun _ _ e h => hanswer _ e h

theorem stays_sql (statement : Statement) :
    Stays s (sql statement) (fun _ => True) Thrown.Own v added := by
  have hc : Call.Leaves (.sql statement) := trivial
  refine stays_own hc fun r e h => ?_
  obtain ⟨x, -, rfl⟩ := mapError_eq_error h
  exact own_error x

theorem stays_now : Stays s now (fun _ => True) Thrown.Own v added := by
  have hc : Call.Leaves .now := trivial
  refine stays_own hc fun r e h => ?_
  obtain ⟨x, -, rfl⟩ := mapError_eq_error h
  exact own_error x

theorem stays_createWorkspaceId :
    Stays s createWorkspaceId (fun _ => True) Thrown.Own v added := by
  have hc : Call.Leaves .createWorkspaceId := trivial
  refine stays_own hc fun r e h => ?_
  obtain ⟨x, -, rfl⟩ := mapError_eq_error h
  exact own_error x

theorem stays_ofExcept {r : Except JsError α} :
    Stays s (ofExcept r) (fun _ => True) Thrown.Own v added := by
  cases r with
  | ok a => exact stays_pure trivial
  | error e => exact stays_throw (own_error e)

variable {lib : Libraries} {registry : WorkspaceRegistry}
  {registration : ManagedWorktreeRegistration}

theorem stays_readRequired (id : JsString) :
    Stays s (readRequired lib id) (fun _ => True) Thrown.Own v added := by
  refine stays_bind (Q := fun _ => True) (stays_bind (stays_sql _) fun row _ => ?_) fun row _ => ?_
  · split
    · exact stays_pure trivial
    · exact stays_bind stays_ofExcept fun _ _ => stays_pure trivial
  · split
    · exact stays_throw (own_error _)
    · exact stays_pure trivial

/-- A directory that a workspace is opened on. -/
theorem stays_resolveWorkspaceDirectory (hs : s.Lawful) (path : JsString) :
    Stays s (resolveWorkspaceDirectory path)
      (fun out => ∃ place, out.1 = Path.text place ∧ v.Stands place) Thrown.Own v added := by
  refine stays_bind (stays_mapError (stays_realpath hs path)
    fun e _ => own_classifyOpenPathError path e) fun canonical => ?_
  rintro ⟨place, node, hlocate, hnode, rfl⟩
  refine stays_bind (stays_mapError (stays_stat hs place.text)
    fun e _ => own_classifyOpenPathError path e) fun stats => ?_
  rintro ⟨found, node', hfound, hnode', rfl⟩
  split
  · exact stays_throw (own_registry _)
  · rename_i hdirectory
    have hlands := Volume.lands_of_locate hlocate
    obtain rfl : place = found :=
      Except.ok.inj ((Volume.locate_text hlands).symm.trans hfound)
    have hstands : v.node? place = some .directory := by
      rw [hnode']
      simpa using hdirectory
    exact stays_pure ⟨place, rfl, hlands.toReached, hstands⟩

theorem stays_registerManagedWorktree (hs : s.Lawful) (action : JournalAction) :
    Stays s (registerManagedWorktree lib registry registration action) (fun _ => True)
      Thrown.Own v added := by
  refine stays_bind (stays_resolveWorkspaceDirectory hs _) fun directory _ => ?_
  refine stays_bind stays_now fun timestamp _ => ?_
  refine stays_bind stays_createWorkspaceId fun id _ => ?_
  exact stays_bind (stays_sql _) fun _ _ => stays_readRequired _

theorem stays_listsWorktree (hs : s.Lawful) (path : JsString) :
    ∀ worktrees, Stays s (listsWorktree registration path worktrees) (fun _ => True) Thrown.Own v
      added
  | [] => stays_pure trivial
  | worktree :: worktrees => by
      refine stays_bind (Q := fun _ => True) (stays_tryCatch (E := fun _ => True)
        (stays_map ((stays_realpath hs _).mono (fun _ _ => trivial) fun _ _ => trivial))
        fun _ _ => stays_pure trivial) fun canonical _ => ?_
      split
      · exact stays_pure trivial
      · exact stays_listsWorktree hs path worktrees

theorem own_mapGitError {path : JsString} {e : Thrown} (h : e.Own) : (mapGitError path e).Own := by
  cases e with
  | git e => exact own_registry _
  | registry e => exact h
  | errno e => exact h
  | error e => exact h

theorem stays_listGitWorktrees (repoRoot : JsString) :
    Stays s (listGitWorktrees repoRoot) (fun _ => True) Thrown.Own v added := by
  have hc : Call.Leaves (.worktreeList repoRoot) := trivial
  refine stays_own hc fun r e h => ?_
  cases r with
  | ok output => cases h
  | error failure =>
      obtain rfl := Except.error.inj h
      exact fun _ => rfl

theorem stays_tryReconcilePartialWorktree (hs : s.Lawful) :
    Stays s (tryReconcilePartialWorktree lib registry registration) (fun _ => True) Thrown.Own v
      added := by
  refine stays_bind (stays_sql _) fun intended _ => ?_
  split
  · exact stays_pure trivial
  refine stays_bind (Q := fun _ => True) (stays_tryCatch (E := fun _ => True)
    (stays_map ((stays_realpath hs _).mono (fun _ _ => trivial) fun _ _ => trivial))
    fun _ _ => stays_pure trivial) fun canonical _ => ?_
  split
  · exact stays_pure trivial
  refine stays_bind (stays_mapError (stays_listGitWorktrees _) fun e he => own_mapGitError he)
    fun worktrees _ => ?_
  refine stays_bind (stays_listsWorktree hs _ worktrees) fun listed _ => ?_
  split
  · exact stays_bind (stays_registerManagedWorktree hs _) fun _ _ => stays_pure trivial
  · exact stays_pure trivial

theorem stays_plain {p : Async α} (hp : Async.Uses Call.Plain p) :
    Stays s p (fun _ => True) (fun _ => True) v added :=
  stays_of_uses (hp.mono fun _ => Call.Plain.leaves)

theorem stays_waitForInflightWorktree (hs : s.Lawful) :
    ∀ attempts, Stays s (waitForInflightWorktree lib registry registration attempts)
      (fun _ => True) (fun _ => True) v added
  | 0 => (stays_tryReconcilePartialWorktree hs).mono (fun _ _ => trivial) fun _ _ => trivial
  | attempts + 1 => by
      refine stays_bind ((stays_tryReconcilePartialWorktree hs).mono (fun _ h => h)
        fun _ _ => trivial) fun reconciled _ => ?_
      split
      · exact stays_pure trivial
      refine stays_bind (stays_plain (plain_hasWorktreeJournalAction _ _)) fun failed _ => ?_
      split
      · exact stays_pure trivial
      refine stays_bind (stays_plain (plain_hasWorktreeJournalAction _ _)) fun cleanup _ => ?_
      split
      · exact stays_pure trivial
      split
      · exact stays_bind (stays_plain (plain_delay _)) fun _ _ =>
          stays_waitForInflightWorktree hs attempts
      · exact stays_waitForInflightWorktree hs attempts

theorem stays_openBranch (hs : s.Lawful) :
    Stays s (openBranch lib registry registration) (fun _ => True) (fun _ => True) v added := by
  have hc : Call.Leaves (.branchCommit registration.repoRoot registration.branch) := trivial
  refine stays_bind (stays_of_uses (Async.uses_mapError (Async.uses_request hc)))
    fun commit _ => ?_
  split
  · refine stays_bind (Q := fun _ => True) ?_ fun _ _ => stays_pure trivial
    refine stays_bind (stays_plain (plain_hasWorktreeJournalAction _ _)) fun intended _ => ?_
    split
    · refine stays_bind (stays_plain (plain_canStillBeInFlight _)) fun inFlight _ => ?_
      split
      · refine stays_bind (stays_waitForInflightWorktree hs _) fun reconciled _ => ?_
        split
        · exact stays_pure trivial
        · exact stays_plain (plain_requireBranchCleanup _)
      · exact stays_plain (plain_requireBranchCleanup _)
    · exact stays_throw trivial
  · exact stays_pure trivial

/-! ## The managed path -/

/-- Nothing has the name that the path string ends with. -/
def Free (v : Volume) (path : JsString) : Prop :=
  v.locate false path = .error .ENOENT ∨
    ∃ place, v.locate false path = .ok place ∧ v.node? place = none

/-- The creation goes on only if nothing is at the managed path. -/
theorem stays_openPath (hs : s.Lawful) : Stays s (openPath lib registry registration)
    (fun reconciled => reconciled = none → Free v registration.worktreePath) (fun _ => True) v
    added := by
  refine stays_tryCatch (E := fun e => hasErrnoCode e "ENOENT" = true →
    Free v registration.worktreePath) ?_ fun e he => ?_
  · refine stays_bind ((stays_lstat hs registration.worktreePath).mono (fun _ h => h)
      fun _ h => h) fun _ _ => ?_
    refine stays_bind ((stays_tryReconcilePartialWorktree hs).mono (fun _ h => h)
      fun e he hcode => ?_) fun reconciled _ => ?_
    · rw [he] at hcode
      cases hcode
    · split
      · exact stays_pure fun h => by cases h
      · exact stays_throw fun h => by cases h
  · split
    · exact stays_throw trivial
    · split
      · exact stays_throw trivial
      · rename_i hcode
        refine stays_pure fun _ => he ?_
        simpa using hcode

/-! ## The source of a worktree -/

theorem stays_findRepoRootIn (hs : s.Lawful) :
    ∀ directories, Stays s (findRepoRootIn directories)
      (fun found => ∀ directory, found = some directory → directory ∈ directories)
      (fun _ => True) v added
  | [] => stays_pure fun _ h => by cases h
  | current :: rest => by
      refine stays_tryCatch (E := fun _ => True) (stays_bind ((stays_lstat hs _).mono
        (fun _ h => h) fun _ _ => trivial) fun _ _ => stays_pure ?_) fun e _ => ?_
      · exact fun _ h => Option.some.inj h ▸ List.mem_cons_self
      · split
        · exact (stays_findRepoRootIn hs rest).mono
            (fun _ h directory hd => List.mem_cons_of_mem _ (h directory hd)) fun _ h => h
        · split
          · exact stays_pure fun _ h => by cases h
          · exact stays_throw trivial

/-- The directories above a canonical path are canonical. -/
theorem mem_ancestorsFrom {root directory : JsString} : ∀ (fuel : Nat) {place : Path},
    place.Plain → directory ∈ ancestorsFrom root fuel place.text →
      ∃ above, above <+: place ∧ directory = Path.text above
  | 0, _, _, h => absurd h List.not_mem_nil
  | fuel + 1, place, hplain, h => by
      rw [ancestorsFrom] at h
      obtain rfl | h := List.mem_cons.mp h
      · exact ⟨place, List.prefix_refl _, rfl⟩
      · split at h
        · exact absurd h List.not_mem_nil
        · rename_i hend
          obtain rfl | ⟨above, name, rfl⟩ := List.eq_nil_or_concat' place
          · exact absurd (.inr (by decide)) hend
          · have habove : Path.Plain above := fun n hn => hplain n (List.mem_append_left _ hn)
            have hdirname : dirname (Path.text (above ++ [name])) = Path.text above := by
              have htext : Path.text (above ++ [name]) = target above [Name.text name] := by
                rw [target, Path.text, List.map_append]
                rfl
              rw [htext, ← target_nil]
              exact dirname_target habove (List.forall_mem_nil _) (.of_name (hplain name (by simp)))
            rw [hdirname] at h
            obtain ⟨directory', hprefix, heq⟩ := mem_ancestorsFrom fuel habove h
            exact ⟨directory', hprefix.trans (List.prefix_append _ _), heq⟩

/-- The repository of a source, and where its root comes from. -/
structure SourceIn (v : Volume) (source : WorktreeSource) (repo : Path)
    (segs first rest : List JsString) (place : Path) : Prop where
  repoRoot : source.repoRoot = repo.text
  stands : v.Stands repo
  plain : ∀ t ∈ segs, Plain t
  potential : Potential v segs source.managedRoot first rest place
  noConflict : isSameOrDescendantPath source.repoRoot source.managedRoot = false

theorem stays_resolveSource (hs : s.Lawful) (requestedPath requestedBaseRef : JsString) :
    Stays s (resolveSource registry requestedPath requestedBaseRef)
      (fun source => ∃ repo segs first rest place, SourceIn v source repo segs first rest place)
      (fun _ => True) v added := by
  refine stays_bind ((stays_resolveWorkspaceDirectory hs _).mono (fun _ h => h) fun _ _ => trivial)
    fun directory => ?_
  obtain ⟨sourcePath, identity⟩ := directory
  rintro ⟨source, rfl, hsource⟩
  refine stays_bind (stays_findRepoRootIn hs _) fun found hfound => ?_
  split
  · exact stays_throw trivial
  · rename_i repoRoot
    obtain ⟨repo, hprefix, rfl⟩ := mem_ancestorsFrom _ hsource.plain (hfound repoRoot rfl)
    split
    · exact stays_throw trivial
    · rename_i worktreeRoot _
      obtain ⟨segs, heq, hplain, -⟩ := resolve_eq_target registry.cwd worktreeRoot
      have hmanaged : Stays s (canonicalizePotentialPath registry.cwd worktreeRoot)
          (fun p => ∃ first rest place, Potential v segs p first rest place) (fun _ => True) v
          added := by
        rw [canonicalizePotentialPath, heq]
        refine (stays_canonicalizeFrom hs segs hplain _ [] (by simp) (by simp)).mono ?_
          fun _ h => h
        intro p h
        rwa [List.append_nil] at h
      refine stays_bind hmanaged fun managedRoot => ?_
      rintro ⟨first, rest, place, hpotential⟩
      split
      · exact stays_throw trivial
      · rename_i hconflict
        refine stays_bind ((stays_stat hs _).mono (fun _ _ => trivial) fun _ h => h)
          fun stats _ => ?_
        refine stays_bind (stays_of_uses (Async.uses_mapError
          ((reads_resolveGitCommit _).mono fun _ => Call.Reads.leaves))) fun commit _ => ?_
        exact stays_pure ⟨repo, segs, first, rest, place, rfl, hsource.of_prefix hprefix, hplain,
          hpotential, Bool.eq_false_iff.mpr hconflict⟩

/-! ## The repository and the root -/

theorem isSameOrDescendantPath_eq (parent candidate : JsString) :
    isSameOrDescendantPath parent candidate = isSameOrDescendant parent candidate := rfl

/-- The repository is not above the root: not above the place that is there,
since the check would have seen it, and not among the missing names. -/
theorem SourceIn.not_above {source : WorktreeSource} {repo : Path} {segs first rest : List JsString}
    {place : Path} (h : SourceIn v source repo segs first rest place) :
    ¬ repo <+: place ++ rest.map scalars := by
  have hpotential := h.potential
  have hrest : ∀ t ∈ rest, Plain t := fun t ht =>
    h.plain t (hpotential.segs_eq ▸ List.mem_append_right _ ht)
  have hlands := Volume.lands_of_locate hpotential.located
  have hconflict : ¬ repo.map Name.text <+: place.map Name.text ++ rest := by
    rw [← isSameOrDescendant_target h.stands.plain hlands.plain hrest, ← hpotential.path,
      ← h.repoRoot, ← isSameOrDescendantPath_eq, h.noConflict]
    simp
  intro hprefix
  obtain habove | hbelow := List.prefix_or_prefix_of_prefix hprefix (List.prefix_append place _)
  · exact hconflict ((habove.map Name.text).trans (List.prefix_append _ _))
  · obtain ⟨names, rfl⟩ := hbelow
    have hnames := (List.prefix_append_right_inj place).mp hprefix
    cases names with
    | nil => exact hconflict (by simp)
    | cons name names =>
        obtain ⟨t, rest, rfl⟩ : ∃ t ts, rest = t :: ts := by
          refine List.exists_cons_of_ne_nil fun hnil => ?_
          rw [hnil] at hnames
          exact absurd (List.prefix_nil.mp hnames) (List.cons_ne_nil _ _)
        obtain ⟨rfl, -⟩ := List.cons_prefix_cons.mp hnames
        obtain ⟨-, hnowhere⟩ := hpotential.missing (List.cons_ne_nil _ _)
        have hname := (hrest t List.mem_cons_self).name
        have hchild : v.Stands (place ++ [scalars t]) := h.stands.of_prefix ⟨names, by simp⟩
        have hwalk : v.walk true linkMax place [scalars t] = .ok (place ++ [scalars t]) :=
          Volume.steps_directory hname.ne_dotDot (hchild.short _ (by simp)) hchild.node []
        exact (hnowhere t rfl).not_directory hwalk hchild.node

/-- The root is made and the repository is there, not above it. -/
structure Prepared (v : Volume) (repoRoot managedRoot : JsString) (repo managed : Path) : Prop where
  repoRoot_eq : repoRoot = repo.text
  repoStands : v.Stands repo
  stands : v.Stands managed
  names : ∀ name, Plain name →
    components (scalars (join managedRoot name)) = managed ++ [scalars name]
  not_above : ¬ repo <+: managed

theorem SourceIn.prepared {source : WorktreeSource} {repo : Path} {segs first rest : List JsString}
    {place : Path} (h : SourceIn v source repo segs first rest place) (hv : v.Rooted) {v' : Volume}
    (hmake : v.makeDirectories source.managedRoot = (.ok (), v')) :
    Prepared v' source.repoRoot source.managedRoot repo (place ++ rest.map scalars) := by
  have hrest : ∀ t ∈ rest, Plain t := fun t ht =>
    h.plain t (h.potential.segs_eq ▸ List.mem_append_right _ ht)
  obtain ⟨hdirectory, hmade⟩ := h.potential.made hv h.plain hmake
  have hplace := (h.potential.stands hdirectory).plain
  refine ⟨h.repoRoot, h.stands.keeps hmade.keeps, hmade.stands, fun name hname => ?_, h.not_above⟩
  have hall : ∀ t ∈ rest ++ [name], Plain t := fun t ht =>
    (List.mem_append.mp ht).elim (hrest t) fun ht => List.mem_singleton.mp ht ▸ hname
  rw [h.potential.path, join_target hplace hrest hname, components_target hplace hall]
  simp

/-- The directory of a worktree is neither that of its repository nor inside
it. -/
def Apart (a : LockedWorktree × Volume) : Prop :=
  ∃ repo place : Path, realpathOf a.2 a.1.repoRoot = .ok repo.text ∧
    a.1.repoRoot = repo.text ∧ realpathOf a.2 a.1.worktreePath = .ok place.text ∧ ¬ repo <+: place

/-- A free name in the root cannot be that of the repository, so what git makes
there is outside it. -/
theorem Prepared.apart (hs : s.Lawful) {worktree : LockedWorktree} {managedRoot : JsString}
    {repo managed : Path} (h : Prepared v worktree.repoRoot managedRoot repo managed)
    {name : JsString} (hname : Plain name) (hpath : worktree.worktreePath = join managedRoot name)
    (hfree : Free v worktree.worktreePath) : Apart (worktree, s.checkout worktree v) := by
  have hcomponents := h.names name hname
  rw [← hpath] at hcomponents
  have hlocate := Volume.locate_eq_walk h.stands hcomponents
  have hkeeps := hs.checkout_keeps worktree v
  have hplain := hname.name
  -- the name is short, or the walk would not have ended with ENOENT
  have hsteps : v.locate false worktree.worktreePath = .ok (managed ++ [scalars name]) ∧
      Name.size (scalars name) ≤ nameMax ∧ v.node? (managed ++ [scalars name]) = none := by
    obtain ⟨hlong, hsteps⟩ | ⟨hshort, hsteps⟩ := steps_single v false
      (v.walk false (linkMax - 1)) managed hplain.ne_dotDot
    · have hwalk : v.locate false worktree.worktreePath = .error .ENAMETOOLONG :=
        (hlocate false).trans hsteps
      rw [Free, hwalk] at hfree
      obtain h | ⟨_, h, -⟩ := hfree
      · cases h
      · cases h
    · have hwalk : v.locate false worktree.worktreePath = .ok (managed ++ [scalars name]) :=
        (hlocate false).trans (hsteps fun _ _ => rfl)
      rw [Free, hwalk] at hfree
      obtain h | ⟨_, h, hnode⟩ := hfree
      · cases h
      · exact ⟨hwalk, hshort, by rw [Except.ok.inj h]; exact hnode⟩
  obtain ⟨hwalk, hshort, hnone⟩ := hsteps
  have hmade := hs.checkout_made worktree v _ hwalk hnone
  have hmanaged := h.stands.keeps hkeeps
  have hlands : (s.checkout worktree v).Lands true (managed ++ [scalars name]) :=
    ⟨hmanaged.concat hplain hshort, fun target htarget => by cases hmade.symm.trans htarget⟩
  have hrepo := h.repoStands.keeps hkeeps
  refine ⟨repo, managed ++ [scalars name], ?_, h.repoRoot_eq, ?_, fun hprefix => ?_⟩
  · rw [h.repoRoot_eq]
    exact realpathOf_ok.mpr ⟨repo, _, Volume.locate_text (hrepo.lands true), hrepo.node, rfl⟩
  · refine realpathOf_ok.mpr ⟨_, _, ?_, hmade, rfl⟩
    rw [Volume.locate, hcomponents]
    exact Volume.walk_lands linkMax hlands
  · obtain rfl | habove := List.prefix_concat_iff.mp hprefix
    · cases hnone.symm.trans h.repoStands.node
    · exact h.not_above habove

/-! ## The creation -/

/-- Every worktree that was made is apart from its repository. -/
def Ground.Good (g : Ground) : Prop := ∀ a ∈ g.added, Apart a

/-- What makes no worktree keeps that. -/
theorem wp_good {p : Async α} {Q : α → Prop} {X : Thrown → Prop}
    (h : ∀ v added, Stays s p Q X v added) {g : Ground} (hg : g.Good) :
    Async.Wp s.answer p (fun _ => Ground.Good) (fun _ => Ground.Good) g := by
  have hkeep {g' : Ground} (hg' : g'.Is g.vol g.added) : g'.Good := fun a ha =>
    hg a (hg'.added ▸ ha)
  exact ((h g.vol g.added).wp g ⟨rfl, rfl⟩).mono (fun _ _ h => hkeep h.1) fun _ _ h => hkeep h.1

/-- The directory of a worktree is made, or nothing is. -/
theorem answer_addDirectory (worktree : LockedWorktree) (g : Ground) :
    ((s.answer (.worktreeAdd .directory worktree) g).2).Is g.vol g.added ∨
      (s.answer (.worktreeAdd .directory worktree) g).2.Is (s.checkout worktree g.vol)
        (g.added ++ [(worktree, s.checkout worktree g.vol)]) := by
  unfold Surroundings.answer
  cases hfault : (s.fault g.calls).bind fun e => Call.failed? e (.worktreeAdd .directory worktree) with
  | some failure => exact .inl ⟨rfl, rfl⟩
  | none =>
      dsimp only [Surroundings.perform]
      split
      · exact .inr ⟨rfl, rfl⟩
      · exact .inl ⟨rfl, rfl⟩

/-- A call whose answer does not matter. -/
theorem wp_call {c : Call} {answer : Answer c → Except Thrown α} {P : Ground → Prop} {g : Ground}
    (h : P (s.answer c g).2) :
    Async.Wp s.answer (.request c answer) (fun _ => P) (fun _ => P) g := by
  refine Async.wp_request.mpr ?_
  split
  · exact h
  · exact h

theorem wp_createLockedWorktree {worktree : LockedWorktree} {g : Ground} (hg : g.Good)
    (happart : Apart (worktree, s.checkout worktree g.vol)) :
    Async.Wp s.answer (createLockedWorktree worktree) (fun _ => Ground.Good)
      (fun _ => Ground.Good) g := by
  have hbranch : Call.Leaves (.worktreeAdd .branch worktree) := trivial
  have hentry : Call.Leaves (.worktreeAdd .entry worktree) := trivial
  refine Async.wp_bind.mpr ((wp_call (P := fun g' => g'.Is g.vol g.added)
    (answer_leaves hbranch ⟨rfl, rfl⟩)).mono (fun _ g₁ h₁ => ?_) fun _ g₁ h₁ a ha =>
      hg a (h₁.added ▸ ha))
  have hgood₁ : g₁.Good := fun a ha => hg a (h₁.added ▸ ha)
  refine Async.wp_bind.mpr ((wp_call (P := Ground.Good) ?_).mono (fun _ g₂ h₂ => ?_)
    fun _ _ h => h)
  · obtain hsame | hmade := answer_addDirectory worktree g₁
    · exact fun a ha => hgood₁ a (hsame.added ▸ ha)
    · intro a ha
      rw [hmade.added, h₁.vol] at ha
      obtain ha | ha := List.mem_append.mp ha
      · exact hgood₁ a ha
      · rw [List.mem_singleton.mp ha]
        exact happart
  · exact wp_call fun a ha => h₂ a ((answer_leaves hentry ⟨rfl, rfl⟩).added ▸ ha)

theorem wp_createWorktree (hs : s.Lawful) {g : Ground} (hg : g.Good)
    (happart : Apart (registration.locked, s.checkout registration.locked g.vol)) :
    Async.Wp s.answer (createWorktree lib registry registration) (fun _ => Ground.Good)
      (fun _ => Ground.Good) g := by
  have hintent := (stays_plain (plain_appendWorktreeJournal registration.ownershipKey .createIntent
      [("repoRoot", registration.repoRoot), ("requestedBaseRef", registration.requestedBaseRef),
        ("baseCommit", registration.baseCommit), ("branch", registration.branch),
        ("worktreePath", registration.worktreePath)]) : Stays s _ _ _ g.vol g.added).wp g
    ⟨rfl, rfl⟩
  refine Async.wp_bind.mpr (hintent.mono (fun _ g₁ h₁ => ?_) fun _ g₁ h₁ a ha =>
    hg a (h₁.1.added ▸ ha))
  have hgood₁ : g₁.Good := fun a ha => hg a (h₁.1.added ▸ ha)
  refine Async.wp_bind.mpr (Async.Wp.mono (Q := fun _ => Ground.Good)
    (Async.wp_tryCatch.mpr ?_) (fun reconciled g₂ h₂ => ?_) fun _ _ h => h)
  · refine (Async.wp_bind.mpr ((wp_createLockedWorktree hgood₁ (h₁.1.vol.symm ▸ happart)).mono
      (fun _ g₂ h₂ => Async.wp_pure.mpr h₂) fun _ _ h => h)).mono (fun _ _ h => h)
      fun e g₂ h₂ => ?_
    refine Async.wp_bind.mpr ((wp_good (fun v added => stays_tryReconcilePartialWorktree hs)
      h₂).mono (fun reconciled g₃ h₃ => ?_) fun _ _ h => h)
    split
    · exact Async.wp_pure.mpr h₃
    · refine Async.wp_bind.mpr ((wp_good (fun v added => stays_plain
        (plain_appendWorktreeJournal _ _ _)) h₃).mono (fun _ _ h => Async.wp_throw.mpr h)
        fun _ _ h => h)
  · split
    · exact Async.wp_pure.mpr h₂
    · exact wp_good (fun v added => stays_registerManagedWorktree hs _) h₂

/-- The managed root is made, or the call failed. -/
theorem answer_mkdir (path : JsString) (g : Ground) :
    (s.answer (.mkdir path) g).2.added = g.added ∧
      ∀ u, (s.answer (.mkdir path) g).1 = .ok u →
        g.vol.makeDirectories path = (.ok (), (s.answer (.mkdir path) g).2.vol) := by
  unfold Surroundings.answer
  cases hfault : (s.fault g.calls).bind fun e => Call.failed? e (.mkdir path) with
  | some failure =>
      refine ⟨rfl, fun u h => ?_⟩
      cases hfault' : s.fault g.calls with
      | none =>
          rw [hfault'] at hfault
          cases hfault
      | some e =>
          rw [hfault'] at hfault
          obtain rfl := Option.some.inj hfault
          cases h
  | none =>
      refine ⟨rfl, fun u h => Prod.ext ?_ rfl⟩
      exact mapError_eq_ok h

/-- The names of worktrees are hexadecimal digits. -/
def Libraries.PlainKeys (lib : Libraries) : Prop := ∀ bytes, Plain ((lib.sha256 bytes).take 20)

theorem wp_openSource (hs : s.Lawful) (hlib : lib.PlainKeys) (hv : v.Rooted)
    {source : WorktreeSource} {repo : Path} {segs first rest : List JsString} {place : Path}
    (hsource : SourceIn v source repo segs first rest place) {g : Ground} (hg : g.Is v []) :
    Async.Wp s.answer (openSource lib registry source) (fun _ => Ground.Good)
      (fun _ => Ground.Good) g := by
  have hnone {g' : Ground} (h : g'.added = []) : g'.Good := fun a ha => by
    rw [h] at ha
    cases ha
  refine Async.wp_bind.mpr (((stays_sql _ : Stays s _ _ _ v []).wp g hg).mono
    (fun existing g₁ h₁ => ?_) fun _ _ h => hnone h.1.added)
  split
  · exact wp_good (fun v added => stays_plain (plain_openExisting _ _ _)) (hnone h₁.1.added)
  obtain ⟨hadded, hmade⟩ := answer_mkdir (s := s) source.managedRoot g₁
  have hadded₂ := hadded.trans h₁.1.added
  refine Async.wp_bind.mpr (Async.wp_request.mpr ?_)
  cases hanswer : (s.answer (.mkdir source.managedRoot) g₁).1 with
  | error e => exact hnone hadded₂
  | ok u =>
      have hmake := hmade u hanswer
      rw [h₁.1.vol] at hmake
      have hprepared := hsource.prepared hv hmake
      generalize (s.answer (.mkdir source.managedRoot) g₁).2 = g₂ at hadded₂ hprepared
      refine Async.wp_bind.mpr (((stays_openPath hs : Stays s _ _ _ g₂.vol []).wp g₂
        ⟨rfl, hadded₂⟩).mono (fun reconciled g₃ h₃ => ?_) fun _ _ h => hnone h.1.added)
      split
      · exact Async.wp_pure.mpr (hnone h₃.1.added)
      rename_i hfree
      have hfree := h₃.2 rfl
      refine Async.wp_bind.mpr (((stays_openBranch hs : Stays s _ _ _ g₂.vol []).wp g₃
        h₃.1).mono (fun reconciled g₄ h₄ => ?_) fun _ _ h => hnone h.1.added)
      split
      · exact Async.wp_pure.mpr (hnone h₄.1.added)
      · refine wp_createWorktree hs (hnone h₄.1.added) ?_
        rw [h₄.1.vol]
        exact Prepared.apart hs hprepared (hlib _) rfl hfree

end

/-! ## The managed root -/

/-- The walk up from a root ends, what it gives is where the root will be, and
every worktree that is made there is outside its repository. -/
theorem managed_root_checked (s : Surroundings) (hs : s.Lawful) (v : Volume) (hv : v.Rooted) :
    (∀ cwd root : JsString,
      (∀ fuel, (resolve [cwd, root]).length ≤ fuel →
        canonicalizeFrom fuel (resolve [cwd, root]) [] = canonicalizePotentialPath cwd root) ∧
      ∀ p g, Prog.run s.answer (canonicalizePotentialPath cwd root).run ⟨v, 0, []⟩ = (.ok p, g) →
        g.vol = v ∧ (WellFormed cwd → WellFormed root → toWellFormed p = p) ∧
        ∀ v', v.makeDirectories p = (.ok (), v') →
          realpathOf v' p = .ok (toWellFormed p) ∧
          realpathOf v' (resolve [cwd, root]) = .ok (toWellFormed p)) ∧
    ∀ (lib : Libraries) (registry : WorkspaceRegistry) (requestedPath baseRef : JsString),
      lib.PlainKeys → ∀ a ∈ (Prog.run s.answer
        (openWorktree lib registry requestedPath baseRef).run ⟨v, 0, []⟩).2.added, Apart a := by
  constructor
  · intro cwd root
    refine ⟨fun fuel => canonicalizePotentialPath_fuel cwd root, fun p g hrun => ?_⟩
    obtain ⟨segs, heq, hplain, hwell⟩ := resolve_eq_target cwd root
    have hwp := (stays_canonicalizeFrom (v := v) hs segs hplain (target [] segs).length []
      (by simp) (by simp)).wp ⟨v, 0, []⟩ ⟨rfl, rfl⟩
    rw [List.append_nil] at hwp
    rw [canonicalizePotentialPath, heq] at hrun
    rw [Async.wp_iff, hrun] at hwp
    obtain ⟨hg, first, rest, place, hpotential⟩ := hwp
    refine ⟨hg.vol, fun hcwd hroot => ?_, fun v' hmake => ?_⟩
    · rw [hpotential.path]
      refine toWellFormed_of_wellFormed (wellFormed_target place fun t ht => ?_)
      exact hwell hcwd hroot t (hpotential.segs_eq ▸ List.mem_append_right _ ht)
    · rw [heq]
      exact hpotential.realpath hv hplain hmake
  · intro lib registry requestedPath baseRef hlib
    have hwp : Async.Wp s.answer (openWorktree lib registry requestedPath baseRef)
        (fun _ => Ground.Good) (fun _ => Ground.Good) ⟨v, 0, []⟩ := by
      refine Async.wp_bind.mpr (((stays_resolveSource (v := v) hs requestedPath baseRef).wp
        ⟨v, 0, []⟩ ⟨rfl, rfl⟩).mono (fun source g h => ?_) fun _ g h a ha => ?_)
      · obtain ⟨hg, repo, segs, first, rest, place, hsource⟩ := h
        exact wp_openSource hs hlib hv hsource hg
      · rw [h.1.added] at ha
        cases ha
    rw [Async.wp_iff] at hwp
    split at hwp
    · exact hwp
    · exact hwp

namespace Sample

/-- A repository at `/r` and an empty directory `/m`. -/
def volume : Volume :=
  ⟨⟨[(["r".toList], .directory), (["r".toList, ".git".toList], .directory),
    (["m".toList], .directory)], by
    change [["r".toList], ["r".toList, ".git".toList], ["m".toList]].Nodup
    decide⟩, 0o022⟩

/-- Nothing fails, and there are no managed worktrees and no branches; git
makes an empty directory. -/
def surroundings : Surroundings where
  fault _ := none
  identity _ := ⟨true, 1, 1, 0⟩
  other _ c :=
    match c with
    | .sql (.selectManaged _) => .ok none
    | .sql (.append _) => .ok ()
    | .sql _ => .error (.error (js "no such row"))
    | .revParse _ _ => .ok commit
    | .branchCommit _ _ => .error ⟨some 1, []⟩
    | .worktreeAdd _ _ => .ok ()
    | .worktreeList _ => .ok []
    | .now => .ok (js "now")
    | .createWorkspaceId => .ok ⟨js "w", by decide⟩
    | .delay _ => ()
    | .realpath _ => .error absent
    | .stat _ => .error absent
    | .lstat _ => .error absent
    | .mkdir _ => .error absent
  checkout worktree v :=
    match v.locate false worktree.worktreePath with
    | .ok place => if v.node? place = none then v.put place .directory else v
    | .error _ => v

theorem surroundings_lawful : surroundings.Lawful where
  fault_code _ _ h := by cases h
  checkout_keeps worktree v := by
    dsimp only [surroundings]
    split
    · rename_i place hplace
      split
      · rename_i hfree
        have hne : v.node? place ≠ some .directory := by simp [hfree]
        have hnode := Volume.node?_put (v := v) (Volume.ne_nil_of_node? hne) .directory
        refine ⟨fun path hpath => ?_, fun path target hpath => ?_⟩
        · rw [hnode]
          split
          · rfl
          · exact hpath
        · rw [hnode, if_neg fun heq => by rw [heq, hfree] at hpath; cases hpath]
          exact hpath
      · exact .refl v
    · exact .refl v
  checkout_made worktree v place hlocate hfree := by
    dsimp only [surroundings]
    have hne : v.node? place ≠ some .directory := by simp [hfree]
    rw [hlocate]
    dsimp only
    rw [if_pos hfree, Volume.node?_put (Volume.ne_nil_of_node? hne), if_pos rfl]

/-- A registry whose managed root is still to be made. -/
def newRoot : WorkspaceRegistry := ⟨none, some (js "/m/new"), js "/", by decide⟩

/-- The worktrees that `open('/r', { mode: 'worktree' })` makes. -/
def madeWorktrees : List (LockedWorktree × Volume) :=
  (Prog.run surroundings.answer (openWorktree libraries newRoot (js "/r") (js "HEAD")).run
    ⟨volume, 0, []⟩).2.added

theorem managed_root_checked_new : madeWorktrees.map (fun a => a.1.worktreePath) = [js "/m/new/k"] ∧
    ∀ a ∈ madeWorktrees, Apart a := by
  refine ⟨by decide +kernel, ?_⟩
  have hkey : Plain ((js "k").take 20) := ⟨by decide, by decide, by decide, by decide⟩
  have hlib : libraries.PlainKeys := fun _ => hkey
  exact (managed_root_checked surroundings surroundings_lawful volume
    (Volume.rooted_of_entries (by decide))).2 libraries newRoot (js "/r") (js "HEAD") hlib

/-- The root with the name U+D800, which is no character. -/
def loneSurrogate : JsString := [slash, 0xD800]

/-- The file system has the encoded name, and says so. -/
theorem managed_root_replaced : ∃ p v',
    (Prog.run surroundings.answer (canonicalizePotentialPath (js "/") loneSurrogate).run
      ⟨volume, 0, []⟩).1 = .ok p ∧
    volume.makeDirectories p = (.ok (), v') ∧ realpathOf v' p ≠ .ok p := by
  refine ⟨loneSurrogate, (volume.makeDirectories loneSurrogate).2, by decide +kernel,
    Prod.ext (by decide +kernel) rfl, by decide +kernel⟩

end Sample

end Benchhand.Workspace
