/-
Benchhand.Workspace.Ground — a registry on a file system that nobody else
changes.

The calls that name paths are answered by a `Volume`; the database, git and the
clock answer whatever they like. A call on the file system may fail for a
reason of its own, but not by saying that something does not exist. What
`git worktree add` puts into the directory that it makes is up to it.

`Stays` is about a function that makes no directory: what it resolves with, and
what it rejects with.
-/
import Benchhand.Posix.Directories
import Benchhand.Process.ProgramTheorems
import Benchhand.Workspace.RegistryTheorems

namespace Benchhand.Workspace

open Text Js Posix Process

/-! ## Answers -/

/-- What a volume does not decide. -/
structure Surroundings where
  /-- Whether a call on the file system fails, by its number. -/
  fault : Nat → Option Errno
  /-- The numbers that `stat` reports of a place. -/
  identity : Path → BigIntStats
  /-- The answers of the database, of git and of the clock. -/
  other : Nat → (c : Call) → Answer c
  /-- The volume with a new worktree. -/
  checkout : LockedWorktree → Volume → Volume

/-- Failures do not lie, and git makes the directory of a worktree and keeps
the others. -/
structure Surroundings.Lawful (s : Surroundings) : Prop where
  fault_code : ∀ n e, s.fault n = some e → e.code ≠ js "ENOENT"
  checkout_keeps : ∀ worktree (v : Volume), v.KeepsWays (s.checkout worktree v)
  checkout_made : ∀ worktree v place, v.locate false worktree.worktreePath = .ok place →
    v.node? place = none → (s.checkout worktree v).node? place = some .directory

/-- A volume, with the number of the calls and the worktrees that were made on
it, each with the volume that it was made into. -/
structure Ground where
  vol : Volume
  calls : Nat
  added : List (LockedWorktree × Volume)

def Surroundings.stat (s : Surroundings) (v : Volume) (path : JsString) :
    Except Errno BigIntStats :=
  (v.lookup true "stat" path).map fun found =>
    { s.identity found.1 with isDirectory := found.2 = .directory }

/-- `realpath(path)` on a volume. -/
def realpathOf (v : Volume) (path : JsString) : Except Errno JsString :=
  (v.lookup true "realpath" path).map fun found => Path.text found.1

/-- A call that does not fail, on a volume. -/
def Surroundings.perform (s : Surroundings) : (c : Call) → Ground → Answer c × Ground
  | .realpath path, g => (realpathOf g.vol path, g)
  | .stat path, g => (s.stat g.vol path, g)
  | .lstat path, g => ((g.vol.lookup false "lstat" path).map fun _ => ⟨⟩, g)
  | .mkdir path, g =>
      ((g.vol.makeDirectories path).1.mapError fun r => r.errno "mkdir" (quoted path),
        { g with vol := (g.vol.makeDirectories path).2 })
  | .worktreeAdd .directory worktree, g =>
      match (s.other g.calls (.worktreeAdd .directory worktree) : Except ExecFailure Unit) with
      | .ok _ =>
          let vol := s.checkout worktree g.vol
          (.ok ⟨⟩, { g with vol, added := g.added ++ [(worktree, vol)] })
      | .error failure => (.error failure, g)
  | c, g => (s.other g.calls c, g)

/-- A failing call on the file system. -/
def Call.failed? (e : Errno) : (c : Call) → Option (Answer c)
  | .realpath _ => some (.error e)
  | .stat _ => some (.error e)
  | .lstat _ => some (.error e)
  | .mkdir _ => some (.error e)
  | _ => none

def Surroundings.answer (s : Surroundings) : Handler Call Answer Ground := fun c g =>
  let next := { g with calls := g.calls + 1 }
  match (s.fault g.calls).bind fun e => c.failed? e with
  | some failure => (failure, next)
  | none => ((s.perform c g).1, { (s.perform c g).2 with calls := g.calls + 1 })

/-! ## Calls that make no directory -/

/-- The call makes no directory. -/
def Call.Leaves : Call → Prop
  | .mkdir _ => False
  | .worktreeAdd .directory _ => False
  | _ => True

theorem Call.Reads.leaves {c : Call} (h : c.Reads) : c.Leaves := by
  cases c with
  | mkdir path => exact h.elim
  | worktreeAdd stage worktree => exact h.elim
  | _ => trivial

theorem Call.Plain.leaves {c : Call} (h : c.Plain) : c.Leaves := by
  cases c with
  | mkdir path => exact h.elim
  | worktreeAdd stage worktree => exact h.elim
  | _ => trivial

/-- The volume and the worktrees are these. -/
structure Ground.Is (g : Ground) (v : Volume) (added : List (LockedWorktree × Volume)) : Prop where
  vol : g.vol = v
  added : g.added = added

section
variable {s : Surroundings} {v : Volume} {added : List (LockedWorktree × Volume)}

theorem answer_leaves {c : Call} (hc : c.Leaves) {g : Ground} (hg : g.Is v added) :
    (s.answer c g).2.Is v added := by
  obtain ⟨rfl, rfl⟩ := hg
  unfold Surroundings.answer
  cases hfault : (s.fault g.calls).bind fun e => c.failed? e with
  | some failure => exact ⟨rfl, rfl⟩
  | none =>
      cases c with
      | mkdir path => exact hc.elim
      | worktreeAdd stage worktree =>
          cases stage with
          | directory => exact hc.elim
          | branch => exact ⟨rfl, rfl⟩
          | entry => exact ⟨rfl, rfl⟩
      | _ => exact ⟨rfl, rfl⟩

theorem answer_cases (hs : s.Lawful) (c : Call) (g : Ground) :
    (∃ e : Errno, e.code ≠ js "ENOENT" ∧ c.failed? e = some (s.answer c g).1) ∨
      (s.answer c g).1 = (s.perform c g).1 := by
  unfold Surroundings.answer
  cases hfault : s.fault g.calls with
  | none => exact .inr rfl
  | some e =>
      cases hfailed : c.failed? e with
      | none => exact .inr (by simp only [Option.bind_some, hfailed])
      | some failure =>
          exact .inl ⟨e, hs.fault_code _ _ hfault, by simp only [Option.bind_some, hfailed]⟩

/-- The function leaves the volume as it is; it resolves with what meets `Q`
or rejects with what meets `X`. -/
structure Stays {α : Type} (s : Surroundings) (p : Async α) (Q : α → Prop) (X : Thrown → Prop)
    (v : Volume) (added : List (LockedWorktree × Volume)) : Prop where
  wp : ∀ g : Ground, g.Is v added →
    Async.Wp s.answer p (fun a g' => g'.Is v added ∧ Q a) (fun e g' => g'.Is v added ∧ X e) g

variable {α β : Type} {p : Async α} {Q : α → Prop} {X : Thrown → Prop}

theorem Stays.mono {Q' : α → Prop} {X' : Thrown → Prop} (h : Stays s p Q X v added)
    (hQ : ∀ a, Q a → Q' a) (hX : ∀ e, X e → X' e) : Stays s p Q' X' v added :=
  ⟨fun g hg => (h.wp g hg).mono (fun _ _ hg' => ⟨hg'.1, hQ _ hg'.2⟩)
    fun _ _ hg' => ⟨hg'.1, hX _ hg'.2⟩⟩

theorem stays_pure {a : α} (h : Q a) : Stays s (pure a) Q X v added := ⟨fun _ hg => ⟨hg, h⟩⟩

theorem stays_throw {e : Thrown} (h : X e) : Stays s (throw e : Async α) Q X v added :=
  ⟨fun _ hg => ⟨hg, h⟩⟩

theorem stays_bind {f : α → Async β} {R : β → Prop} (hp : Stays s p Q X v added)
    (hf : ∀ a, Q a → Stays s (f a) R X v added) : Stays s (p >>= f) R X v added :=
  ⟨fun g hg => Async.wp_bind.mpr ((hp.wp g hg).mono (fun a g' h => (hf a h.2).wp g' h.1)
    fun _ _ h => h)⟩

theorem stays_tryCatch {handle : Thrown → Async α} {E : Thrown → Prop}
    (hp : Stays s p Q E v added) (hhandle : ∀ e, E e → Stays s (handle e) Q X v added) :
    Stays s (tryCatch p handle) Q X v added :=
  ⟨fun g hg => Async.wp_tryCatch.mpr ((hp.wp g hg).mono (fun _ _ h => h)
    fun e g' h => (hhandle e h.2).wp g' h.1)⟩

theorem stays_mapError {f : Thrown → Thrown} {E : Thrown → Prop} (hp : Stays s p Q E v added)
    (hX : ∀ e, E e → X (f e)) : Stays s (Async.mapError f p) Q X v added :=
  stays_tryCatch hp fun e h => stays_throw (hX e h)

theorem stays_map {f : α → β} {R : β → Prop} (hp : Stays s p (fun a => R (f a)) X v added) :
    Stays s (f <$> p) R X v added :=
  ⟨fun g hg => Async.wp_map.mpr (hp.wp g hg)⟩

theorem stays_of_uses (hp : Async.Uses Call.Leaves p) :
    Stays s p (fun _ => True) (fun _ => True) v added := by
  refine ⟨fun g hg => Async.wp_iff.mpr ?_⟩
  have hend := Prog.Uses.run_invariant (I := fun g => g.Is v added)
    (fun c g hc hg => answer_leaves (s := s) hc hg) hp g hg
  split
  · exact ⟨hend, trivial⟩
  · exact ⟨hend, trivial⟩

/-- One call, by its answer. -/
theorem stays_request {c : Call} (hc : c.Leaves) {answer : Answer c → Except Thrown α}
    (hok : ∀ g : Ground, g.Is v added → ∀ a, answer (s.answer c g).1 = .ok a → Q a)
    (herror : ∀ g : Ground, g.Is v added → ∀ e, answer (s.answer c g).1 = .error e → X e) :
    Stays s (.request c answer) Q X v added := by
  refine ⟨fun g hg => Async.wp_request.mpr ?_⟩
  have hnext := answer_leaves (s := s) hc hg
  cases h : answer (s.answer c g).1 with
  | ok a => exact ⟨hnext, hok g hg a h⟩
  | error e => exact ⟨hnext, herror g hg e h⟩

/-! ## Lookups -/

theorem hasErrnoCode_errno {e : Errno} {code : String} :
    hasErrnoCode (.errno e) code = true ↔ e.code = js code := beq_iff_eq

/-- A path string that a lookup says does not exist leads nowhere. -/
theorem lookup_ENOENT {follow : Bool} {syscall : String} {path : JsString} {e : Errno}
    (h : v.lookup follow syscall path = .error e) (hcode : e.code = js "ENOENT") :
    v.locate follow path = .error .ENOENT ∨
      ∃ place, v.locate follow path = .ok place ∧ v.node? place = none := by
  unfold Volume.lookup at h
  cases hlocate : v.locate follow path with
  | error r =>
      rw [hlocate] at h
      obtain rfl := Except.error.inj h
      have hcode : js r.code = js "ENOENT" := hcode
      cases r with
      | ENOENT => exact .inl rfl
      | _ => exact absurd hcode (by decide)
  | ok place =>
      rw [hlocate] at h
      dsimp only at h
      cases hnode : v.node? place with
      | none => exact .inr ⟨place, rfl, hnode⟩
      | some node =>
          rw [hnode] at h
          cases h

/-- A call that looks a path string up; a failure that says that it does not
exist is right. -/
theorem stays_lookup (hs : s.Lawful) {c : Call} (hc : c.Leaves)
    {answer : Answer c → Except Thrown α} {follow : Bool} {syscall : String} {path : JsString}
    {f : Path × Node → α}
    (hfailed : ∀ e failure, c.failed? e = some failure → answer failure = .error (.errno e))
    (hperform : ∀ g, answer (s.perform c g).1 =
      ((g.vol.lookup follow syscall path).map f).mapError .errno) :
    Stays s (.request c answer)
      (fun a => ∃ place node, v.locate follow path = .ok place ∧ v.node? place = some node ∧
        a = f (place, node))
      (fun e => hasErrnoCode e "ENOENT" = true → v.locate follow path = .error .ENOENT ∨
        ∃ place, v.locate follow path = .ok place ∧ v.node? place = none) v added := by
  refine stays_request hc (fun g hg a h => ?_) fun g hg e h hcode => ?_
  · obtain ⟨failure, -, hfailure⟩ | hanswer := answer_cases hs c g
    · rw [hfailed _ _ hfailure] at h
      cases h
    · rw [hanswer, hperform, hg.vol] at h
      obtain ⟨place, node, hlocate, hnode, rfl⟩ := (Volume.lookup_map _ f).mp (mapError_eq_ok h)
      exact ⟨place, node, hlocate, hnode, rfl⟩
  · obtain ⟨failure, hne, hfailure⟩ | hanswer := answer_cases hs c g
    · rw [hfailed _ _ hfailure] at h
      obtain rfl := Except.error.inj h
      exact absurd (hasErrnoCode_errno.mp hcode) hne
    · rw [hanswer, hperform, hg.vol] at h
      obtain ⟨errno, hmap, rfl⟩ := mapError_eq_error h
      cases hlookup : v.lookup follow syscall path with
      | ok found =>
          rw [hlookup] at hmap
          cases hmap
      | error e =>
          rw [hlookup] at hmap
          obtain rfl := Except.error.inj hmap
          exact lookup_ENOENT hlookup (hasErrnoCode_errno.mp hcode)

theorem stays_realpath (hs : s.Lawful) (path : JsString) : Stays s (realpath path)
    (fun p => ∃ place node, v.locate true path = .ok place ∧ v.node? place = some node ∧
      p = place.text)
    (fun e => hasErrnoCode e "ENOENT" = true → v.Missing path) v added := by
  have hc : Call.Leaves (.realpath path) := trivial
  exact stays_lookup hs hc (fun e failure h => Option.some.inj h ▸ rfl) fun g => rfl

theorem stays_stat (hs : s.Lawful) (path : JsString) : Stays s (stat path)
    (fun stats => ∃ place node, v.locate true path = .ok place ∧ v.node? place = some node ∧
      stats = { s.identity place with isDirectory := node = .directory })
    (fun _ => True) v added := by
  have hc : Call.Leaves (.stat path) := trivial
  exact (stays_lookup hs hc (fun e failure h => Option.some.inj h ▸ rfl) fun g => rfl).mono
    (fun _ h => h) fun _ _ => trivial

theorem stays_lstat (hs : s.Lawful) (path : JsString) : Stays s (lstat path)
    (fun _ => ∃ place node, v.locate false path = .ok place ∧ v.node? place = some node)
    (fun e => hasErrnoCode e "ENOENT" = true → v.locate false path = .error .ENOENT ∨
      ∃ place, v.locate false path = .ok place ∧ v.node? place = none) v added := by
  have hc : Call.Leaves (.lstat path) := trivial
  refine (stays_lookup hs hc (fun e failure h => Option.some.inj h ▸ rfl) fun g => rfl).mono ?_
    fun _ h => h
  exact fun _ ⟨place, node, hlocate, hnode, _⟩ => ⟨place, node, hlocate, hnode⟩

end

end Benchhand.Workspace
