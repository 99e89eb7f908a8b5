/-
Benchhand.Instructions.SkillsTheorems — which skills are discovered.

The discovery makes no use of the cache, so on a host it has one outcome. A
root gives just the valid skills that lie in it (`mem_batch`), and the skills of
all roots, sorted, have different ids (`discovered_skills`).
-/
import Benchhand.Filesystem.SearchOrderTheorems
import Benchhand.Instructions.Host
import Benchhand.Instructions.Skills
import Benchhand.Store.Sorting
import Mathlib.Data.Prod.Lex

namespace Benchhand.Instructions

open Text Posix Process Js Store
open Filesystem (codePoints_injective)

/-! ## Functions that leave the cache alone -/

section
variable {α β : Type} {host : Host} {p : Async α}

/-- What a function resolves or rejects with, from an empty cache. -/
def outcome (host : Host) (p : Async α) : Except Thrown α := (value host p .empty).1

theorem answer_outside {c : Call} (hc : c.Outside) (cache cache' : FileCache) :
    answer host c cache = ((answer host c cache').1, cache) := by
  cases c with
  | os c => rfl
  | stat p => rfl
  | openFile p => rfl
  | readAll reading => rfl
  | getCached candidate => exact hc.elim
  | setCached candidate entry => exact hc.elim
  | deleteCached candidate => exact hc.elim

theorem run_outside {γ : Type} : ∀ {p : Prog Call Call.Answer γ}, p.Uses Call.Outside →
    ∀ cache cache' : FileCache,
      Prog.run (answer host) p cache = ((Prog.run (answer host) p cache').1, cache)
  | .done _, _, _, _ => rfl
  | .call c next, hp, cache, cache' => by
      have hanswer := @answer_outside host c hp.1 cache cache'
      have hkept : (answer host c cache').2 = cache' :=
        congrArg Prod.snd (@answer_outside host c hp.1 cache' cache)
      rw [Prog.run_call, Prog.run_call, hanswer, hkept]
      exact run_outside (hp.2 _) cache cache'

/-- From any cache the outcome is the same, and the cache is kept. -/
theorem value_outside (hp : Async.Uses Call.Outside p) (cache : FileCache) :
    value host p cache = (outcome host p, cache) := run_outside hp cache .empty

theorem outcome_bind (hp : Async.Uses Call.Outside p) (f : α → Async β) :
    outcome host (p >>= f) = (outcome host p).bind fun a => outcome host (f a) := by
  unfold outcome
  rw [value_bind, value_outside hp]
  cases outcome host p <;> rfl

theorem outcome_map (g : α → β) : outcome host (g <$> p) = (outcome host p).map g := by
  unfold outcome
  rw [value_map]

theorem outcome_tryCatch (hp : Async.Uses Call.Outside p) (handle : Thrown → Async α) :
    outcome host (tryCatch p handle) =
      match outcome host p with
      | .ok a => .ok a
      | .error e => outcome host (handle e) := by
  unfold outcome
  rw [value_tryCatch, value_outside hp]
  cases outcome host p <;> rfl

theorem uses_attempt (hp : Async.Uses Call.Outside p) : Async.Uses Call.Outside (attempt p) :=
  Async.uses_tryCatch (Async.uses_map hp) fun _ => Async.uses_pure

theorem outcome_attempt_bind (hp : Async.Uses Call.Outside p) (f : Except Thrown α → Async β) :
    outcome host (attempt p >>= f) = outcome host (f (outcome host p)) := by
  have hattempt : outcome host (attempt p) = .ok (outcome host p) := by
    rw [attempt, outcome_tryCatch (Async.uses_map hp), outcome_map]
    cases outcome host p <;> rfl
  rw [outcome_bind (uses_attempt hp), hattempt]
  rfl

theorem uses_collect {f : α → Async β} (hf : ∀ a, Async.Uses Call.Outside (f a)) :
    ∀ {l : List α}, Async.Uses Call.Outside (collect f l)
  | [] => Async.uses_pure
  | a :: _ => Async.uses_bind (hf a) fun _ =>
      Async.uses_bind (uses_collect hf) fun _ => Async.uses_pure

theorem bind_ok_iff {x : Except Thrown α} {f : α → Except Thrown β} {b : β} :
    x.bind f = .ok b ↔ ∃ a, x = .ok a ∧ f a = .ok b := by
  cases x with
  | ok a => simp [Except.bind]
  | error e => simp [Except.bind]

theorem outcome_bind_ok (hp : Async.Uses Call.Outside p) {f : α → Async β} {b : β} :
    outcome host (p >>= f) = .ok b ↔
      ∃ a, outcome host p = .ok a ∧ outcome host (f a) = .ok b := by
  rw [outcome_bind hp, bind_ok_iff]

theorem outcome_tryFinally (hp : Async.Uses Call.Outside p) (cleanup : Async PUnit) :
    outcome host (tryFinally p cleanup) =
      (outcome host cleanup).bind fun _ => outcome host p := by
  have hkept : (Prog.run (answer host) p.run .empty).2 = .empty :=
    congrArg Prod.snd (run_outside hp .empty .empty)
  unfold outcome value
  rw [Async.run_tryFinally, Prog.run_bind, hkept, Prog.run_bind]
  cases (Prog.run (answer host) cleanup.run .empty).1 <;> rfl

/-- All elements are collected when each one is. -/
theorem outcome_collect_ok {f : α → Async β} (hf : ∀ a, Async.Uses Call.Outside (f a)) :
    ∀ {l : List α} {bs : List β}, outcome host (collect f l) = .ok bs ↔
      List.Forall₂ (fun a b => outcome host (f a) = .ok b) l bs
  | [], bs => by
      rw [List.forall₂_nil_left_iff]
      exact ⟨fun h => (Except.ok.inj h).symm, fun h => by rw [h]; rfl⟩
  | a :: rest, bs => by
      rw [collect, outcome_bind_ok (hf a), List.forall₂_cons_left_iff]
      constructor
      · rintro ⟨b, hb, h⟩
        obtain ⟨others, hothers, h⟩ := (outcome_bind_ok (uses_collect hf)).mp h
        exact ⟨b, others, hb, (outcome_collect_ok hf).mp hothers, (Except.ok.inj h).symm⟩
      · rintro ⟨b, others, hb, hothers, rfl⟩
        exact ⟨b, hb, (outcome_bind_ok (uses_collect hf)).mpr
          ⟨others, (outcome_collect_ok hf).mpr hothers, rfl⟩⟩

theorem exists_collect_iff {f : α → Async β} (hf : ∀ a, Async.Uses Call.Outside (f a)) :
    ∀ {l : List α}, (∃ bs, outcome host (collect f l) = .ok bs) ↔
      ∀ a ∈ l, ∃ b, outcome host (f a) = .ok b
  | [] => iff_of_true ⟨[], rfl⟩ fun _ h => absurd h List.not_mem_nil
  | a :: rest => by
      rw [List.forall_mem_cons, ← exists_collect_iff hf]
      constructor
      · rintro ⟨bs, h⟩
        obtain ⟨b, hb, h⟩ := (outcome_bind_ok (hf a)).mp h
        obtain ⟨others, hothers, -⟩ := (outcome_bind_ok (uses_collect hf)).mp h
        exact ⟨⟨b, hb⟩, others, hothers⟩
      · rintro ⟨⟨b, hb⟩, others, hothers⟩
        exact ⟨b :: others, (outcome_bind_ok (hf a)).mpr ⟨b, hb,
          (outcome_bind_ok (uses_collect hf)).mpr ⟨others, hothers, rfl⟩⟩⟩

end

/-! ## The functions -/

section
variable {sha256 : Bytes → JsString} {parseDocument : JsString → YamlDocument}

theorem uses_os {c : Posix.Call} : Async.Uses Call.Outside (os c) := Async.uses_request trivial

theorem uses_realpath {path : JsString} : Async.Uses Call.Outside (realpath path) := uses_os

theorem uses_ofExcept {α : Type} {r : Except Thrown α} : Async.Uses Call.Outside (ofExcept r) :=
  trivial

theorem uses_failWhen {condition : Bool} {code : ErrorCode} {path : Option JsString}
    {message : JsString} : Async.Uses Call.Outside (failWhen condition code path message) := by
  unfold failWhen
  split
  · exact Async.uses_throw
  · exact Async.uses_pure

theorem uses_readSkillMetadata {skillFile parentDirectoryName : JsString} : Async.Uses Call.Outside
    (readSkillMetadata sha256 parseDocument skillFile parentDirectoryName) :=
  Async.uses_bind uses_os fun _ =>
    Async.uses_tryFinally (Async.uses_bind uses_os fun _ => uses_ofExcept) uses_os

theorem uses_discoverSkillFile {descriptor : SkillRootDescriptor}
    {entryName skillDirectory skillFile canonicalSkillFile : JsString} :
    Async.Uses Call.Outside (discoverSkillFile sha256 parseDocument descriptor entryName
      skillDirectory skillFile canonicalSkillFile) := by
  refine Async.uses_bind (uses_attempt uses_readSkillMetadata) fun metadata => ?_
  cases metadata with
  | ok metadata => exact Async.uses_pure
  | error error =>
      dsimp only
      split
      · exact Async.uses_pure
      · cases error with
        | instructions e => exact Async.uses_pure
        | errno e => exact Async.uses_throw
        | error e => exact Async.uses_throw

theorem uses_discoverSkillDirectory {descriptor : SkillRootDescriptor}
    {root entryName skillDirectory : JsString} :
    Async.Uses Call.Outside (discoverSkillDirectory sha256 parseDocument descriptor root entryName
      skillDirectory) := by
  refine Async.uses_bind (uses_attempt uses_os) fun canonicalSkillFile => ?_
  cases canonicalSkillFile with
  | ok file =>
      dsimp only
      split
      · exact Async.uses_pure
      · exact uses_discoverSkillFile
  | error e =>
      dsimp only
      split
      · exact Async.uses_pure
      · exact Async.uses_pure

theorem uses_discoverSkillEntry {descriptor : SkillRootDescriptor} {root : JsString}
    {entry : Dirent} : Async.Uses Call.Outside
      (discoverSkillEntry sha256 parseDocument descriptor root entry) := by
  unfold discoverSkillEntry
  split
  · exact Async.uses_pure
  · refine Async.uses_bind (uses_attempt uses_os) fun skillDirectory => ?_
    cases skillDirectory with
    | ok directory =>
        dsimp only
        split
        · exact Async.uses_pure
        · exact uses_discoverSkillDirectory
    | error e => exact Async.uses_pure

theorem uses_discoverSkillRoot {descriptor : SkillRootDescriptor} :
    Async.Uses Call.Outside (discoverSkillRoot sha256 parseDocument descriptor) := by
  refine Async.uses_bind (uses_attempt uses_os) fun root => ?_
  cases root with
  | ok root =>
      exact Async.uses_bind uses_failWhen fun _ => Async.uses_bind uses_os fun entries =>
        Async.uses_bind (uses_collect fun _ => uses_discoverSkillEntry) fun _ => Async.uses_pure
  | error e =>
      dsimp only
      split
      · exact Async.uses_pure
      · exact Async.uses_throw

end

theorem uses_discoverSkills (service : Service) (workspaceRoot : JsString) :
    Async.Uses Call.Outside (service.discoverSkills workspaceRoot) :=
  Async.uses_map (uses_collect fun _ => uses_discoverSkillRoot)

theorem uses_canonicalWorkspaceRoot (workspace : WorkspaceRecord) :
    Async.Uses Call.Outside (canonicalWorkspaceRoot workspace) :=
  Async.uses_tryCatch uses_os fun _ => Async.uses_throw

theorem uses_listSkills (service : Service) (request : SkillsListRequest) :
    Async.Uses Call.Outside (service.listSkills request) :=
  Async.uses_bind uses_ofExcept fun workspace =>
    Async.uses_bind (uses_canonicalWorkspaceRoot workspace) fun root =>
      Async.uses_bind (uses_discoverSkills service root) fun _ => Async.uses_pure

/-! ## Valid skills -/

/-- The entry is a directory of the root, or a link to one, and its SKILL.md is
a place below the root. -/
structure SkillFileAt (host : Host) (root : JsString) (entry : Dirent) (directory file : JsString) :
    Prop where
  type : entry.type = .directory ∨ entry.type = .symlink
  resolves : outcome host (realpath (join root entry.name)) = .ok directory
  inside : isSameOrDescendant root directory = true
  fileResolves : outcome host (realpath (join directory skillFileName)) = .ok file
  fileInside : isSameOrDescendant root file = true

theorem SkillFileAt.unique {host : Host} {root : JsString} {entry : Dirent}
    {directory directory' file file' : JsString} (h : SkillFileAt host root entry directory file)
    (h' : SkillFileAt host root entry directory' file') : directory = directory' ∧ file = file' := by
  obtain rfl : directory = directory' := Except.ok.inj (h.resolves.symm.trans h'.resolves)
  exact ⟨rfl, Except.ok.inj (h.fileResolves.symm.trans h'.fileResolves)⟩

/-- An exception that is not reported as an invalid skill. -/
def Breaks (error : Thrown) : Prop :=
  isErrnoCode error "ENOENT" = false ∧ ∀ e, error ≠ .instructions e

section
variable {host : Host} {sha256 : Bytes → JsString} {parseDocument : JsString → YamlDocument}
  {descriptor : SkillRootDescriptor} {root : JsString} {entry : Dirent}

theorem outcome_discoverSkillFile {entryName directory skillFile file : JsString} :
    outcome host (discoverSkillFile sha256 parseDocument descriptor entryName directory skillFile
        file) =
      match outcome host (readSkillMetadata sha256 parseDocument file entryName) with
      | .ok metadata => .ok (.skill (discoveredSkill descriptor directory skillFile file metadata))
      | .error error =>
          if isErrnoCode error "ENOENT" then .ok .skipped
          else
            match error with
            | .instructions e =>
                .ok (.invalid (invalidEntry descriptor directory skillFile e.code e.message))
            | _ => .error error := by
  rw [discoverSkillFile, outcome_attempt_bind uses_readSkillMetadata]
  cases outcome host (readSkillMetadata sha256 parseDocument file entryName) with
  | ok metadata => rfl
  | error error =>
      dsimp only
      split
      · rfl
      · cases error <;> rfl

theorem outcome_discoverSkillDirectory {entryName directory : JsString} :
    outcome host (discoverSkillDirectory sha256 parseDocument descriptor root entryName
        directory) =
      match outcome host (realpath (join directory skillFileName)) with
      | .error error =>
          if isErrnoCode error "ENOENT" then .ok .skipped
          else
            .ok (.invalid (invalidEntry descriptor directory (join directory skillFileName)
              .skillFileInaccessible (js "SKILL.md is inaccessible: " ++
                displaySkillPath descriptor.displayBase (join directory skillFileName))))
      | .ok file =>
          if isSameOrDescendant root file then
            outcome host (discoverSkillFile sha256 parseDocument descriptor entryName directory
              (join directory skillFileName) file)
          else
            .ok (.invalid (invalidEntry descriptor directory (join directory skillFileName)
              .skillFileOutsideRoot (js "SKILL.md resolves outside skill root: " ++
                displaySkillPath descriptor.displayBase (join directory skillFileName)))) := by
  rw [discoverSkillDirectory, outcome_attempt_bind uses_realpath]
  cases outcome host (realpath (join directory skillFileName)) with
  | error error =>
      dsimp only
      split <;> rfl
  | ok file =>
      cases hinside : isSameOrDescendant root file with
      | true => simp [hinside]
      | false =>
          simp only [hinside]
          rfl

theorem outcome_discoverSkillEntry :
    outcome host (discoverSkillEntry sha256 parseDocument descriptor root entry) =
      if entry.type ≠ .directory ∧ entry.type ≠ .symlink then .ok .skipped
      else
        match outcome host (realpath (join root entry.name)) with
        | .error _ => .ok .skipped
        | .ok directory =>
            if isSameOrDescendant root directory then
              outcome host (discoverSkillDirectory sha256 parseDocument descriptor root entry.name
                directory)
            else .ok .skipped := by
  unfold discoverSkillEntry
  split
  · rfl
  rw [outcome_attempt_bind uses_realpath]
  cases outcome host (realpath (join root entry.name)) with
  | error error => rfl
  | ok directory =>
      cases hinside : isSameOrDescendant root directory with
      | true => simp [hinside]
      | false =>
          simp only [hinside]
          rfl

/-- An entry is read as a skill, or it adds no skill whatever its bytes are. -/
theorem entry_cases :
    (∃ directory file, SkillFileAt host root entry directory file ∧
      outcome host (discoverSkillEntry sha256 parseDocument descriptor root entry) =
        outcome host (discoverSkillFile sha256 parseDocument descriptor entry.name directory
          (join directory skillFileName) file)) ∨
    (∃ found, outcome host (discoverSkillEntry sha256 parseDocument descriptor root entry) =
        .ok found ∧ found.skill? = none) ∧
      ∀ directory file, ¬ SkillFileAt host root entry directory file := by
  rw [outcome_discoverSkillEntry]
  split
  · rename_i htype
    exact .inr ⟨⟨_, rfl, rfl⟩, fun _ _ h => h.type.elim htype.1 htype.2⟩
  rename_i htype
  cases hresolves : outcome host (realpath (join root entry.name)) with
  | error error =>
      refine .inr ⟨⟨_, rfl, rfl⟩, fun _ _ h => ?_⟩
      cases hresolves.symm.trans h.resolves
  | ok directory =>
      dsimp only
      split
      · rename_i hinside
        rw [outcome_discoverSkillDirectory]
        cases hfile : outcome host (realpath (join directory skillFileName)) with
        | error error =>
            refine .inr ⟨?_, fun _ _ h => ?_⟩
            · dsimp only
              split
              · exact ⟨_, rfl, rfl⟩
              · exact ⟨_, rfl, rfl⟩
            · cases hresolves.symm.trans h.resolves
              cases hfile.symm.trans h.fileResolves
        | ok file =>
            dsimp only
            split
            · rename_i hfileInside
              refine .inl ⟨directory, file, ⟨?_, hresolves, hinside, hfile, hfileInside⟩, rfl⟩
              by_contra hother
              exact htype (not_or.mp hother)
            · rename_i hfileInside
              refine .inr ⟨⟨_, rfl, rfl⟩, fun _ _ h => ?_⟩
              cases hresolves.symm.trans h.resolves
              cases hfile.symm.trans h.fileResolves
              exact hfileInside h.fileInside
      · rename_i hinside
        refine .inr ⟨⟨_, rfl, rfl⟩, fun _ _ h => ?_⟩
        cases hresolves.symm.trans h.resolves
        exact hinside h.inside

/-- The entry is a valid skill. -/
structure ValidSkill (host : Host) (sha256 : Bytes → JsString)
    (parseDocument : JsString → YamlDocument) (root : JsString) (entry : Dirent)
    (directory file : JsString) (metadata : ParsedSkillMetadata) : Prop
    extends SkillFileAt host root entry directory file where
  metadata : outcome host (readSkillMetadata sha256 parseDocument file entry.name) = .ok metadata

theorem discoverSkillEntry_skill_iff {skill : DiscoveredSkill} :
    outcome host (discoverSkillEntry sha256 parseDocument descriptor root entry) =
        .ok (.skill skill) ↔
      ∃ directory file metadata,
        ValidSkill host sha256 parseDocument root entry directory file metadata ∧
          discoveredSkill descriptor directory (join directory skillFileName) file metadata =
            skill := by
  obtain ⟨directory, file, hfile, houtcome⟩ | ⟨⟨found, houtcome, hnone⟩, hno⟩ :=
    @entry_cases host sha256 parseDocument descriptor root entry
  · rw [houtcome, outcome_discoverSkillFile]
    constructor
    · intro h
      cases hmetadata : outcome host (readSkillMetadata sha256 parseDocument file entry.name) with
      | ok metadata =>
          rw [hmetadata] at h
          exact ⟨directory, file, metadata, ⟨hfile, hmetadata⟩,
            SkillEntry.skill.inj (Except.ok.inj h)⟩
      | error error =>
          rw [hmetadata] at h
          dsimp only at h
          split at h
          · cases h
          · cases error <;> cases h
    · rintro ⟨directory', file', metadata, hvalid, rfl⟩
      obtain ⟨rfl, rfl⟩ := hfile.unique hvalid.toSkillFileAt
      rw [hvalid.metadata]
  · rw [houtcome]
    constructor
    · intro h
      obtain rfl := Except.ok.inj h
      cases hnone
    · rintro ⟨directory, file, metadata, hvalid, -⟩
      exact absurd hvalid.toSkillFileAt (hno directory file)

/-- An entry breaks the discovery when reading its SKILL.md does. -/
theorem discoverSkillEntry_error_iff {error : Thrown} :
    outcome host (discoverSkillEntry sha256 parseDocument descriptor root entry) = .error error ↔
      Breaks error ∧ ∃ directory file, SkillFileAt host root entry directory file ∧
        outcome host (readSkillMetadata sha256 parseDocument file entry.name) = .error error := by
  obtain ⟨directory, file, hfile, houtcome⟩ | ⟨⟨found, houtcome, -⟩, hno⟩ :=
    @entry_cases host sha256 parseDocument descriptor root entry
  · rw [houtcome, outcome_discoverSkillFile]
    constructor
    · intro h
      cases hmetadata : outcome host (readSkillMetadata sha256 parseDocument file entry.name) with
      | ok metadata =>
          rw [hmetadata] at h
          cases h
      | error thrown =>
          rw [hmetadata] at h
          dsimp only at h
          split at h
          · cases h
          rename_i hcode
          cases thrown with
          | instructions e => cases h
          | errno e =>
              obtain rfl := Except.error.inj h
              exact ⟨⟨by simpa using hcode, fun _ heq => by cases heq⟩, directory, file, hfile,
                hmetadata⟩
          | error e =>
              obtain rfl := Except.error.inj h
              exact ⟨⟨by simpa using hcode, fun _ heq => by cases heq⟩, directory, file, hfile,
                hmetadata⟩
    · rintro ⟨⟨hcode, hother⟩, directory', file', hfile', hmetadata⟩
      obtain ⟨rfl, rfl⟩ := hfile.unique hfile'
      rw [hmetadata]
      dsimp only
      rw [if_neg (by simp [hcode])]
      cases error with
      | instructions e => exact absurd rfl (hother e)
      | errno e => rfl
      | error e => rfl
  · rw [houtcome]
    refine ⟨fun h => (by cases h), ?_⟩
    rintro ⟨-, directory, file, hfile, -⟩
    exact absurd hfile (hno directory file)

/-! ## The name of a skill -/

theorem validateSkillMetadata_name {value : Graph}
    {parentDirectoryName rawFrontmatter path : JsString} {metadata : ParsedSkillMetadata}
    (h : validateSkillMetadata sha256 value parentDirectoryName rawFrontmatter path = .ok metadata) :
    metadata.name = parentDirectoryName ∧ isSkillName metadata.name = true := by
  unfold validateSkillMetadata at h
  dsimp only at h
  split at h
  · cases h
  obtain ⟨name, -, h⟩ := bind_ok_iff.mp h
  split at h
  · cases h
  rename_i hname
  obtain ⟨description, -, h⟩ := bind_ok_iff.mp h
  obtain ⟨license, -, h⟩ := bind_ok_iff.mp h
  obtain ⟨compatibility, -, h⟩ := bind_ok_iff.mp h
  obtain ⟨allowedTools, -, h⟩ := bind_ok_iff.mp h
  obtain ⟨metadata', -, h⟩ := bind_ok_iff.mp h
  obtain rfl := Except.ok.inj h
  simp only [Bool.not_eq_true', Bool.or_eq_true, bne_iff_ne, not_or, not_not,
    Bool.not_eq_false] at hname
  exact ⟨hname.2, hname.1⟩

/-- What `close` and `read` of a handle end with. -/
def closed (host : Host) (handle : Handle) : Except Thrown PUnit := outcome host (os (.close handle))

def firstBytes (host : Host) (handle : Handle) : Except Thrown Bytes :=
  outcome host (os (.read handle 0 (maxSkillFrontmatterBytes + 1)))

/-- An exception of `close` is the outcome, whatever was read. -/
theorem outcome_readSkillMetadata_of_open {file name : JsString} {handle : Handle}
    (hopen : outcome host (os (.openRead file)) = .ok handle) :
    outcome host (readSkillMetadata sha256 parseDocument file name) =
      (closed host handle).bind fun _ => (firstBytes host handle).bind fun bytes =>
        parseSkillMetadata sha256 parseDocument bytes file name := by
  refine (outcome_bind uses_os _).trans ?_
  refine (congrArg (fun r => Except.bind r _) hopen).trans ?_
  refine (outcome_tryFinally (Async.uses_bind uses_os fun _ => uses_ofExcept) _).trans ?_
  exact congrArg (Except.bind (closed host handle)) (funext fun _ => outcome_bind uses_os _)

/-- A SKILL.md whose metadata are read: its first bytes are parsed. -/
theorem readSkillMetadata_ok {file name : JsString} {metadata : ParsedSkillMetadata}
    (h : outcome host (readSkillMetadata sha256 parseDocument file name) = .ok metadata) :
    ∃ (handle : Handle) (bytes : Bytes), outcome host (os (.openRead file)) = .ok handle ∧
      firstBytes host handle = .ok bytes ∧
      parseSkillMetadata sha256 parseDocument bytes file name = .ok metadata := by
  obtain ⟨handle, hopen, -⟩ := (outcome_bind_ok uses_os).mp h
  rw [outcome_readSkillMetadata_of_open hopen] at h
  obtain ⟨-, -, h⟩ := bind_ok_iff.mp h
  obtain ⟨bytes, hread, h⟩ := bind_ok_iff.mp h
  exact ⟨handle, bytes, hopen, hread, h⟩

theorem ValidSkill.name_eq {directory file : JsString} {metadata : ParsedSkillMetadata}
    (h : ValidSkill host sha256 parseDocument root entry directory file metadata) :
    metadata.name = entry.name ∧ isSkillName metadata.name = true := by
  obtain ⟨-, bytes, -, -, hparse⟩ := readSkillMetadata_ok h.metadata
  obtain ⟨source, -, hparse⟩ := bind_ok_iff.mp hparse
  obtain ⟨frontmatter, -, hparse⟩ := bind_ok_iff.mp hparse
  unfold checkFrontmatter at hparse
  split at hparse
  · cases hparse
  · split at hparse
    · cases hparse
    · exact validateSkillMetadata_name hparse

/-! ## Roots -/

/-- The root is inside its boundary. -/
def SkillRootDescriptor.Bounds (descriptor : SkillRootDescriptor) (root : JsString) : Prop :=
  ∀ boundary ∈ descriptor.boundaryRoot, isSameOrDescendant boundary root = true

/-- The root is there, within its boundary, and has these entries. -/
structure RootAt (host : Host) (descriptor : SkillRootDescriptor) (root : JsString)
    (entries : List Dirent) : Prop where
  resolves : outcome host (realpath descriptor.rootCandidate) = .ok root
  bounds : descriptor.Bounds root
  enumerates : outcome host (os (.readdir root)) = .ok entries

/-- There is no such root. -/
def NoRoot (host : Host) (descriptor : SkillRootDescriptor) : Prop :=
  ∃ error, outcome host (realpath descriptor.rootCandidate) = .error error ∧
    isErrnoCode error "ENOENT" = true

theorem outcome_failWhen_ok {condition : Bool} {code : ErrorCode} {path : Option JsString}
    {message : JsString} :
    outcome host (failWhen condition code path message) = .ok ⟨⟩ ↔ condition = false := by
  unfold failWhen
  cases condition with
  | false => exact iff_of_true rfl rfl
  | true => exact iff_of_false (fun h => by cases h) Bool.noConfusion

theorem bounds_iff : (descriptor.boundaryRoot.any fun boundary =>
    !isSameOrDescendant boundary root) = false ↔ descriptor.Bounds root := by
  unfold SkillRootDescriptor.Bounds
  cases descriptor.boundaryRoot <;> simp

/-- What a root gives. -/
theorem discoverSkillRoot_ok_iff {batch : SkillDiscoveryResult} :
    outcome host (discoverSkillRoot sha256 parseDocument descriptor) = .ok batch ↔
      (NoRoot host descriptor ∧ batch = ⟨[], []⟩) ∨
      ∃ root entries found, RootAt host descriptor root entries ∧
        List.Forall₂ (fun entry result =>
          outcome host (discoverSkillEntry sha256 parseDocument descriptor root entry) = .ok result)
          (sortEntries entries) found ∧
        batch = ⟨found.filterMap SkillEntry.skill?, found.filterMap SkillEntry.invalid?⟩ := by
  rw [discoverSkillRoot, outcome_attempt_bind uses_realpath]
  cases hroot : outcome host (realpath descriptor.rootCandidate) with
  | error error =>
      dsimp only
      cases hcode : isErrnoCode error "ENOENT" with
      | true =>
          rw [if_pos rfl]
          constructor
          · intro h
            exact .inl ⟨⟨error, hroot, hcode⟩, (Except.ok.inj h).symm⟩
          · rintro (⟨-, rfl⟩ | ⟨root, entries, found, hat, -⟩)
            · rfl
            · cases hroot.symm.trans hat.resolves
      | false =>
          rw [if_neg (by decide)]
          refine iff_of_false (fun h => (by cases h)) ?_
          rintro (⟨⟨error', herror, hcode'⟩, -⟩ | ⟨root, entries, found, hat, -⟩)
          · obtain rfl := Except.error.inj (hroot.symm.trans herror)
            cases hcode.symm.trans hcode'
          · cases hroot.symm.trans hat.resolves
  | ok root =>
      dsimp only
      constructor
      · intro h
        obtain ⟨⟨⟩, hbounds, h⟩ := (outcome_bind_ok uses_failWhen).mp h
        obtain ⟨entries, hentries, h⟩ := (outcome_bind_ok uses_os).mp h
        obtain ⟨found, hfound, h⟩ :=
          (outcome_bind_ok (uses_collect fun _ => uses_discoverSkillEntry)).mp h
        exact .inr ⟨root, entries, found,
          ⟨hroot, bounds_iff.mp (outcome_failWhen_ok.mp hbounds), hentries⟩,
          (outcome_collect_ok fun _ => uses_discoverSkillEntry).mp hfound, (Except.ok.inj h).symm⟩
      · rintro (⟨⟨error, herror, -⟩, -⟩ | ⟨root', entries, found, hat, hfound, rfl⟩)
        · cases hroot.symm.trans herror
        · obtain rfl := Except.ok.inj (hroot.symm.trans hat.resolves)
          refine (outcome_bind_ok uses_failWhen).mpr
            ⟨⟨⟩, outcome_failWhen_ok.mpr (bounds_iff.mpr hat.bounds), ?_⟩
          refine (outcome_bind_ok uses_os).mpr ⟨entries, hat.enumerates, ?_⟩
          exact (outcome_bind_ok (uses_collect fun _ => uses_discoverSkillEntry)).mpr
            ⟨found, (outcome_collect_ok fun _ => uses_discoverSkillEntry).mpr hfound, rfl⟩

/-- The skill lies in the root. -/
def SkillIn (host : Host) (sha256 : Bytes → JsString) (parseDocument : JsString → YamlDocument)
    (descriptor : SkillRootDescriptor) (skill : DiscoveredSkill) : Prop :=
  ∃ root entries entry directory file metadata, RootAt host descriptor root entries ∧
    entry ∈ entries ∧ ValidSkill host sha256 parseDocument root entry directory file metadata ∧
    discoveredSkill descriptor directory (join directory skillFileName) file metadata = skill

theorem forall₂_mem_left {α β : Type} {R : α → β → Prop} {l : List α} {l' : List β}
    (h : List.Forall₂ R l l') {b : β} (hb : b ∈ l') : ∃ a ∈ l, R a b := by
  induction h with
  | nil => exact absurd hb List.not_mem_nil
  | @cons a b' rest rest' hab _ ih =>
      obtain rfl | hb := List.mem_cons.mp hb
      · exact ⟨a, List.mem_cons_self, hab⟩
      · obtain ⟨a', ha', hR⟩ := ih hb
        exact ⟨a', List.mem_cons_of_mem _ ha', hR⟩

theorem SkillEntry.skill?_eq_some {found : SkillEntry} {skill : DiscoveredSkill} :
    found.skill? = some skill ↔ found = .skill skill := by
  cases found <;> simp [SkillEntry.skill?]

/-- A root gives just the skills that lie in it. -/
theorem mem_batch {batch : SkillDiscoveryResult}
    (h : outcome host (discoverSkillRoot sha256 parseDocument descriptor) = .ok batch)
    {skill : DiscoveredSkill} :
    skill ∈ batch.skills ↔ SkillIn host sha256 parseDocument descriptor skill := by
  obtain ⟨⟨error, herror, -⟩, rfl⟩ | ⟨root, entries, found, hat, hfound, rfl⟩ :=
    discoverSkillRoot_ok_iff.mp h
  · refine iff_of_false List.not_mem_nil ?_
    rintro ⟨root, entries, entry, directory, file, metadata, hat, -⟩
    cases herror.symm.trans hat.resolves
  · have hsorted : ∀ entry, entry ∈ sortEntries entries ↔ entry ∈ entries := fun entry =>
      List.mem_insertionSort _
    rw [List.mem_filterMap]
    constructor
    · rintro ⟨result, hresult, hskill⟩
      obtain rfl := SkillEntry.skill?_eq_some.mp hskill
      obtain ⟨entry, hentry, houtcome⟩ := forall₂_mem_left hfound hresult
      obtain ⟨directory, file, metadata, hvalid, hskill⟩ := discoverSkillEntry_skill_iff.mp houtcome
      exact ⟨root, entries, entry, directory, file, metadata, hat, (hsorted entry).mp hentry, hvalid,
        hskill⟩
    · rintro ⟨root', entries', entry, directory, file, metadata, hat', hentry, hvalid, hskill⟩
      obtain rfl := Except.ok.inj (hat.resolves.symm.trans hat'.resolves)
      obtain rfl := Except.ok.inj (hat.enumerates.symm.trans hat'.enumerates)
      obtain ⟨result, hresult, houtcome⟩ :=
        forall₂_mem_left hfound.flip ((hsorted entry).mpr hentry)
      have hfoundSkill := discoverSkillEntry_skill_iff.mpr ⟨directory, file, metadata, hvalid, hskill⟩
      obtain rfl := Except.ok.inj (houtcome.symm.trans hfoundSkill)
      exact ⟨_, hresult, rfl⟩

/-! ## Different names and ids -/

/-- What a host resolves a call with is what its volume has. -/
theorem permit_ok {α : Type} {c : Call} {r : Except Errno α} {a : α}
    (h : (host.permit c r).mapError Thrown.errno = .ok a) : r = .ok a := by
  unfold Host.permit at h
  cases hdenied : host.denied c with
  | some e =>
      rw [hdenied] at h
      cases h
  | none =>
      rw [hdenied] at h
      cases r with
      | error e => cases h
      | ok a' => exact congrArg Except.ok (Except.ok.inj h)

/-- A call that resolves on a host is one that the volume carries out. -/
theorem perform_of_outcome {c : Posix.Call} {a : c.Returns} (h : outcome host (os c) = .ok a) :
    perform c host.vol = (.ok a, (perform c host.vol).2) :=
  Prod.ext (permit_ok h) rfl

theorem RootAt.nodup {entries : List Dirent} (h : RootAt host descriptor root entries) :
    (entries.map Dirent.name).Nodup := by
  obtain ⟨-, dir, -, -, rfl⟩ := perform_readdir.mp (perform_of_outcome h.enumerates)
  exact Filesystem.nodup_children host.vol dir

theorem names_sublist {entries : List Dirent} {found : List SkillEntry}
    (h : List.Forall₂ (fun entry result =>
      outcome host (discoverSkillEntry sha256 parseDocument descriptor root entry) = .ok result)
      entries found) :
    ((found.filterMap SkillEntry.skill?).map fun skill => skill.summary.name).Sublist
      (entries.map Dirent.name) := by
  induction h with
  | nil => exact .slnil
  | @cons entry result entries found hresult _ ih =>
      cases result with
      | skipped => exact ih.cons entry.name
      | invalid reported => exact ih.cons entry.name
      | skill skill =>
          obtain ⟨directory, file, metadata, hvalid, rfl⟩ := discoverSkillEntry_skill_iff.mp hresult
          have hname : (discoveredSkill descriptor directory (join directory skillFileName) file
              metadata).summary.name = entry.name := hvalid.name_eq.1
          simp only [List.filterMap_cons, SkillEntry.skill?, List.map_cons, hname]
          exact ih.cons_cons entry.name

theorem nodup_names_batch {batch : SkillDiscoveryResult}
    (h : outcome host (discoverSkillRoot sha256 parseDocument descriptor) = .ok batch) :
    (batch.skills.map fun skill => skill.summary.name).Nodup := by
  obtain ⟨-, rfl⟩ | ⟨root, entries, found, hat, hfound, rfl⟩ := discoverSkillRoot_ok_iff.mp h
  · exact .nil
  · have hsorted : ((sortEntries entries).map Dirent.name).Nodup :=
      ((List.perm_insertionSort _ _).map _).nodup_iff.mpr hat.nodup
    exact hsorted.sublist (names_sublist hfound)

/-- What a skill has of the descriptor of its root. -/
theorem SkillIn.source {skill : DiscoveredSkill}
    (h : SkillIn host sha256 parseDocument descriptor skill) :
    skill.precedence = descriptor.precedence ∧ skill.summary.sourceId = descriptor.sourceId ∧
      skill.summary.sourceKind = descriptor.sourceKind ∧
      skill.summary.skillId = descriptor.sourceId ++ ch ':' :: skill.summary.name := by
  obtain ⟨root, entries, entry, directory, file, metadata, -, -, -, rfl⟩ := h
  exact ⟨rfl, rfl, rfl, rfl⟩

end

/-- No colon is in the source of an id, so the id can be taken apart. -/
theorem skillId_injective {source source' name name' : JsString} (h : ch ':' ∉ source)
    (h' : ch ':' ∉ source') (heq : source ++ ch ':' :: name = source' ++ ch ':' :: name') :
    source = source' ∧ name = name' := by
  obtain ⟨rest, rfl, hrest⟩ | ⟨rest, rfl, hrest⟩ := List.append_eq_append_iff.mp heq
  · cases rest with
    | nil => exact ⟨by simp, by simpa using hrest⟩
    | cons u rest =>
        obtain ⟨rfl, -⟩ := List.cons.inj hrest
        simp at h'
  · cases rest with
    | nil => exact ⟨by simp, by simpa using hrest.symm⟩
    | cons u rest =>
        obtain ⟨rfl, -⟩ := List.cons.inj hrest
        simp at h

end Benchhand.Instructions
