/-
Benchhand.Filesystem.Commit — what a write or a patch does, call by call.

A `Mutation` is a request of one of the two kinds; its target and its staged
file have path strings (`Mutation.names`). The calls of a mutation follow a
protocol (`Proceeds`): it looks, creates the staged file, edits it, puts it in
the place of the target by a link or a rename, and removes it when it is left
over. `AllOrNothing`, `CreateOnly` and `HashChecked` say what such a list of
calls has done, for every mutation or under a precondition.
-/
import Benchhand.Filesystem.Events
import Benchhand.Filesystem.Patch

namespace Benchhand.Filesystem

open Text Posix Process

/-! ## Mutations -/

inductive Mutation where
  | write (request : WriteRequest)
  | patch (request : PatchRequest)

namespace Mutation

def Result : Mutation → Type
  | .write _ => WriteResult
  | .patch _ => PatchResult

/-- The mutation on a service; `uuid` is the value of `randomUUID()`. -/
def run (service : Service) (uuid : JsString) : (m : Mutation) → Async m.Result
  | .write request => service.write uuid request
  | .patch request => service.patch uuid request

/-- The options that a patch hands to `#writeAtomic`. -/
def patched (options : PatchOptions) (content : Bytes) : WriteOptions where
  path := options.path
  target := options.target
  parent := options.parent
  content := content
  expectedSha256 := some (some options.expectedSha256)

/-- The path strings of the target and of the staged file. -/
def names (service : Service) (uuid : JsString) : Mutation → Async (JsString × JsString)
  | .write request =>
      (fun options => (options.target, service.tempPath uuid options)) <$>
        service.prepareWrite request
  | .patch request =>
      (fun options => (options.target, service.tempPath uuid (patched options []))) <$>
        service.preparePatch request

end Mutation

/-! ## The protocol -/

/-- How far a mutation has come with the staged file at a place. -/
inductive Stage where
  | looking
  | staged (place : Path)
  | linked (place : Path)
  | renamed (place : Path)
  /-- The staged file was there, and its removal was tried. -/
  | removed (place : Path) (committed : Bool)

/-- The target has been replaced or created. -/
def Stage.committed : Stage → Bool
  | .looking => false
  | .staged _ => false
  | .linked _ => true
  | .renamed _ => true
  | .removed _ committed => committed

/-- Where the staged file was created. -/
def Stage.place? : Stage → Option Path
  | .looking => none
  | .staged place => some place
  | .linked place => some place
  | .renamed place => some place
  | .removed place _ => some place

/-- Nothing is left to do about the staged file. -/
def Stage.ended : Stage → Bool
  | .looking => true
  | .staged _ => false
  | .linked _ => false
  | .renamed _ => true
  | .removed _ _ => true

/-- The calls that may fail and be given up. -/
inductive Refusable (target temp : JsString) : Call → Prop
  | create (mode : Mode) : Refusable target temp (.openExclusive temp mode)
  | link : Refusable target temp (.link temp target)
  | rename : Refusable target temp (.rename temp target)

/-- The calls that change the staged file. -/
inductive Edits (place : Path) : Call → Prop
  | chmod {handle : Handle} (h : handle.path = place) (mode : Mode) :
      Edits place (.chmod handle mode)
  | writeFile {handle : Handle} (h : handle.path = place) (content : Bytes) :
      Edits place (.writeFile handle content)

/-- The calls of a mutation, the last one first, and how far they have come. -/
inductive Proceeds (target temp : JsString) : Stage → List Event → Prop
  | start : Proceeds target temp .looking []
  | look {stage : Stage} {log : List Event} {e : Event} (h : Proceeds target temp stage log)
      (hcall : ReadOnly e.call) : Proceeds target temp stage (e :: log)
  | refused {stage : Stage} {log : List Event} {e : Event} (h : Proceeds target temp stage log)
      (hcall : Refusable target temp e.call) (hok : e.ok = false) :
      Proceeds target temp stage (e :: log)
  | create {log : List Event} {e : Event} (h : Proceeds target temp .looking log) (mode : Mode)
      (hcall : e.call = .openExclusive temp mode) (hok : e.ok = true) {place : Path}
      (hplace : e.before.locate false temp = .ok place) :
      Proceeds target temp (.staged place) (e :: log)
  | edit {log : List Event} {e : Event} {place : Path} (h : Proceeds target temp (.staged place) log)
      (hcall : Edits place e.call) : Proceeds target temp (.staged place) (e :: log)
  | link {log : List Event} {e : Event} {place : Path} (h : Proceeds target temp (.staged place) log)
      (hcall : e.call = .link temp target) (hok : e.ok = true) :
      Proceeds target temp (.linked place) (e :: log)
  | rename {log : List Event} {e : Event} {place : Path}
      (h : Proceeds target temp (.staged place) log) (hcall : e.call = .rename temp target)
      (hok : e.ok = true) : Proceeds target temp (.renamed place) (e :: log)
  | removeStaged {log : List Event} {e : Event} {place : Path}
      (h : Proceeds target temp (.staged place) log) (hcall : e.call = .rm temp) :
      Proceeds target temp (.removed place false) (e :: log)
  | removeLinked {log : List Event} {e : Event} {place : Path}
      (h : Proceeds target temp (.linked place) log) (hcall : e.call = .rm temp) :
      Proceeds target temp (.removed place true) (e :: log)

/-! ## All or nothing -/

/-- The staged file is put in the place of the target. -/
def Commits (target temp : JsString) (e : Event) : Prop :=
  e.ok = true ∧ (e.call = .link temp target ∨ e.call = .rename temp target)

/-- The staged file is created at a place. -/
def Creates (temp : JsString) (place : Path) (e : Event) : Prop :=
  e.ok = true ∧ (∃ mode, e.call = .openExclusive temp mode) ∧
    e.before.locate false temp = .ok place

/-- What the calls of a mutation have done, from a volume to the end of a run:
it has succeeded just when the staged file was put in place; if not, the target
is as it was unless another process has changed it; and no file that the calls
created is left over, if removing it does not fail and no other process touches
it or the way to it. -/
structure AllOrNothing (outside : Nat → Turn) (target temp : JsString) (succeeded : Prop)
    (v : Volume) (w : World) : Prop where
  commit : succeeded ↔ ∃ e ∈ w.log, Commits target temp e
  kept : ¬ succeeded → ∀ u place, Volume.locate u false target = .ok place →
    Spared outside place → w.vol.node? place = v.node? place
  clean : ∀ place, (∃ e ∈ w.log, Creates temp place e) → Spared outside place →
    (∀ n u, u.locate false temp = .ok place →
      ((outside n).foreign u).locate false temp = .ok place) →
    (∀ n u, (outside n).fault (.rm temp) u = none) → w.vol.node? place = none

/-! ## Preconditions -/

/-- Something has the name of the target. -/
def Present (target : JsString) (v : Volume) : Prop :=
  ∃ place node, v.locate false target = .ok place ∧ v.node? place = some node

/-- The call leaves what has the name of the target. -/
def Keeps (target : JsString) (e : Event) : Prop :=
  ∀ place node, e.before.locate false target = .ok place → e.before.node? place = some node →
    e.after.node? place = some node

/-- What the calls of a create-only write have done: no call has changed what
had the name of the target; the write has succeeded just when the staged file
got the name, and nothing had it then; and it rejects with a conflict when a
call tried to give away a name that was taken. -/
structure CreateOnly {α : Type} (target temp : JsString) (outcome : Except Thrown α)
    (w : World) : Prop where
  kept : ∀ e ∈ w.log, Keeps target e
  commit : outcome.toBool = true ↔ ∃ e ∈ w.log, Commits target temp e
  absent : ∀ e ∈ w.log, Commits target temp e → ¬ Present target e.before
  conflict : (∃ e ∈ w.log, e.call = .link temp target ∧ Present target e.before) →
    ∃ error, outcome = .error (.filesystem error) ∧ error.code = .writeConflict

/-- The digest of the file at a path string. -/
def Service.digestAt (service : Service) (follow : Bool) (p : JsString) (v : Volume) :
    Option JsString :=
  match v.lookup follow "open" p with
  | .ok (_, .file bytes _) => some (service.sha256 bytes)
  | _ => none

/-- The call opens the target to read it. -/
def opensTarget (target : JsString) (e : Event) : Bool :=
  match e.call with
  | .openRead p => e.ok && p == target
  | _ => false

/-- The digest of what the last opening of the target has found. -/
def Service.openedDigest (service : Service) (target : JsString) (log : List Event) :
    Option JsString :=
  (log.find? (opensTarget target)).bind fun e => service.digestAt true target e.before

/-- The digest that a mutation expects of its target. -/
def Mutation.digest? : Mutation → Option JsString
  | .write request =>
      match normalizeExpectedSha256 request.expectedSha256 with
      | .ok (some (some expected)) => some expected
      | _ => none
  | .patch request =>
      match normalizeRequiredSha256 request.expectedSha256 "expectedSha256" with
      | .ok expected => some expected
      | .error _ => none

/-- The target is replaced only while its file has the digest. -/
def HashChecked (service : Service) (target temp expected : JsString) (w : World) : Prop :=
  ∀ e ∈ w.log, Commits target temp e → service.digestAt false target e.before = some expected

/-- When the target is replaced, its file has the digest of the file that the
last opening of the target has found. -/
def DigestKept (service : Service) (target temp : JsString) (w : World) : Prop :=
  ∀ e earlier, e :: earlier <:+ w.log → Commits target temp e →
    service.digestAt false target e.before = service.openedDigest target earlier

end Benchhand.Filesystem
