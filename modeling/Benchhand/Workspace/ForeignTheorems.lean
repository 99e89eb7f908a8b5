/-
Benchhand.Workspace.ForeignTheorems — what the registry has not made is left
alone.

`foreign_untouched` is about calls one after the other, each of which may stop
anywhere and any of whose calls may fail. `Owned` says when a worktree may be
registered, and `Careful` what every call has to look at first; the functions
are followed from the world they start in, which only they change.
-/
import Benchhand.Workspace.RegistryTheorems

namespace Benchhand.Workspace

open Text Js Posix Contracts Store Process

variable {α β : Type} {lib : Libraries} {registry : WorkspaceRegistry}

/-! ## Foreign state -/

/-- What was there stays: files, branches and worktrees. -/
structure Site.Preserved (old new : Site) : Prop where
  files : ∀ path node, old.files.lstat path = .ok node → new.files.lstat path = .ok node
  branches : ∀ repository branch commit, old.branches repository branch = some commit →
    new.branches repository branch = some commit
  worktrees : ∀ repository, old.worktrees repository <+: new.worktrees repository

theorem Site.Preserved.refl (site : Site) : site.Preserved site :=
  ⟨fun _ _ h => h, fun _ _ _ h => h, fun _ => List.prefix_rfl⟩

theorem Site.Preserved.trans {site site' site'' : Site} (h : site.Preserved site')
    (h' : site'.Preserved site'') : site.Preserved site'' where
  files path node hnode := h'.files path node (h.files path node hnode)
  branches repository branch commit hcommit :=
    h'.branches repository branch commit (h.branches repository branch commit hcommit)
  worktrees repository := (h.worktrees repository).trans (h'.worktrees repository)

/-- git lists the worktree of the registration at a canonical path, with its
commit, branch and lock. -/
def World.Lists (w : World) (registration : ManagedWorktreeRegistration)
    (canonicalPath : JsString) : Prop :=
  ∃ worktree ∈ parseWorktreePorcelain (w.site.listing registration.repoRoot),
    w.site.files.realpath worktree.path = .ok canonicalPath ∧ registration.owns worktree = true

/-- The worktree of a registration may be registered at a path: the request has
made it, or git lists it after an intent. -/
structure Owned (lib : Libraries) (seen : Trace Call Answer) (w : World)
    (registration : ManagedWorktreeRegistration) (canonicalPath : JsString) : Prop where
  named : registration.Named lib
  path : w.site.files.realpath registration.worktreePath = .ok canonicalPath
  origin : (⟨.worktreeAdd .entry registration.locked, .ok ⟨⟩⟩ : (c : Call) × Answer c) ∈ seen ∨
    w.Intended registration.ownershipKey ∧ w.Lists registration canonicalPath

theorem Owned.mono {seen seen' : Trace Call Answer} {w : World}
    {registration : ManagedWorktreeRegistration} {canonicalPath : JsString}
    (h : Owned lib seen w registration canonicalPath) (hseen : seen <+: seen') :
    Owned lib seen' w registration canonicalPath :=
  ⟨h.named, h.path, h.origin.imp_left fun hmem => hseen.subset hmem⟩

/-- Others change nothing. -/
def undisturbed : Choices Call Answer World Choice := fun _ _ _ e => e.evolved = none

/-- A call that makes nothing outside the database leaves the site as it is. -/
theorem Call.Plain.site {c : Call} (hc : c.Plain) {e : Choice} (he : e.evolved = none)
    (w : World) : (handler e c w).2.site = w.site := by
  unfold handler
  rw [World.evolve_none he]
  cases c with
  | sql s =>
      unfold World.answer
      cases e.sqlFault <;> rfl
  | mkdir path => exact hc.elim
  | worktreeAdd stage worktree => exact hc.elim
  | _ => rfl

section
variable {site : Site} {w : World} {seen : Trace Call Answer}
  {registration : ManagedWorktreeRegistration}

theorem Call.Reads.world {c : Call} (hc : c.Reads) {e : Choice} (he : e.evolved = none)
    (w : World) : (handler e c w).2 = w := by
  unfold handler
  rw [World.evolve_none he, answer_reads e hc]

end

/-! ## Runs -/

/-- The repository with a branch that others have made under the managed name. -/
def Sample.occupied : System :=
  ⟨⟨Sample.system.world.db,
    { Sample.site with
      branches := fun _ branch =>
        if branch = js "benchhand/k" then some Sample.commit else none }⟩, []⟩

end Benchhand.Workspace
