/-
Benchhand.Instructions.Skills — InstructionsService.listSkills and readSkill.

A skill is a directory with a SKILL.md in one of five roots: one of the
workspace and four of the user. Both requests discover all of them anew. The
listing selects the first skill of each name, in the order of the roots; the
reading looks one up by its id, which names the root and the skill.
-/
import Benchhand.Instructions.Resolve
import Benchhand.Store.Selection

namespace Benchhand.Instructions

open Text Posix Process Js Store

/-! ## Requests -/

structure SkillsListRequest where
  workspaceId : JsString
  deriving DecidableEq

structure SkillsReadRequest where
  workspaceId : JsString
  skillId : JsString
  deriving DecidableEq

/-! ## Roots -/

structure SkillRootDescriptor where
  sourceId : JsString
  sourceKind : SkillSourceKind
  precedence : Nat
  rootCandidate : JsString
  boundaryRoot : Option JsString
  displayBase : Option JsString

structure DiscoveredSkill where
  precedence : Nat
  summary : SkillSummary
  skillFilePath : JsString
  deriving DecidableEq

structure SkillDiscoveryResult where
  skills : List DiscoveredSkill
  invalid : List InvalidSkillEntry

def skillFileName : JsString := js "SKILL.md"

/-- `toPortableRelative(root, candidate)`; the separator is the slash. -/
def toPortableRelative (root candidate : JsString) : JsString :=
  let value := relative root candidate
  if value = [] then dot else value

/-- `displaySkillPath(base, candidate)`. -/
def displaySkillPath (base : Option JsString) (candidate : JsString) : JsString :=
  match base with
  | none => candidate
  | some base => toPortableRelative base candidate

/-! ## Entries -/

/-- What one turn of the loop over the entries adds. -/
inductive SkillEntry where
  | skipped
  | invalid (entry : InvalidSkillEntry)
  | skill (skill : DiscoveredSkill)
  deriving DecidableEq

def SkillEntry.skill? : SkillEntry → Option DiscoveredSkill
  | .skill found => some found
  | _ => none

def SkillEntry.invalid? : SkillEntry → Option InvalidSkillEntry
  | .invalid reported => some reported
  | _ => none

/-- The outcome of an `await` in a `try`, for its `catch` to look at. -/
def attempt {α : Type} (p : Async α) : Async (Except Thrown α) :=
  tryCatch (.ok <$> p) fun error => pure (.error error)

/-- What a function returns for one element after another. -/
def collect {α β : Type} (f : α → Async β) : List α → Async (List β)
  | [] => pure []
  | a :: rest => do
      let b ← f a
      let others ← collect f rest
      return b :: others

/-- The entry that is reported for a directory without a valid skill. -/
def invalidEntry (descriptor : SkillRootDescriptor) (skillDirectory skillFile : JsString)
    (errorCode : ErrorCode) (message : JsString) : InvalidSkillEntry where
  sourceId := descriptor.sourceId
  sourceKind := descriptor.sourceKind
  skillDirectoryPath := displaySkillPath descriptor.displayBase skillDirectory
  skillFilePath := some (displaySkillPath descriptor.displayBase skillFile)
  errorCode := js errorCode.text
  message

/-- The skill that is found in a directory. -/
def discoveredSkill (descriptor : SkillRootDescriptor)
    (skillDirectory skillFile canonicalSkillFile : JsString) (metadata : ParsedSkillMetadata) :
    DiscoveredSkill where
  precedence := descriptor.precedence
  skillFilePath := canonicalSkillFile
  summary :=
    { skillId := descriptor.sourceId ++ ch ':' :: metadata.name
      name := metadata.name
      description := metadata.description
      sourceId := descriptor.sourceId
      sourceKind := descriptor.sourceKind
      skillDirectoryPath := displaySkillPath descriptor.displayBase skillDirectory
      skillFilePath := displaySkillPath descriptor.displayBase skillFile
      metadataSha256 := metadata.metadataSha256
      license := metadata.license
      compatibility := metadata.compatibility
      metadata := metadata.metadata
      allowedTools := metadata.allowedTools }

section
variable (sha256 : Bytes → JsString) (parseDocument : JsString → YamlDocument)

/-- The turn of the loop from the canonical SKILL.md on. -/
def discoverSkillFile (descriptor : SkillRootDescriptor) (entryName skillDirectory skillFile
    canonicalSkillFile : JsString) : Async SkillEntry := do
  let metadata ← attempt (readSkillMetadata sha256 parseDocument canonicalSkillFile entryName)
  match metadata with
  | .ok metadata =>
      return .skill (discoveredSkill descriptor skillDirectory skillFile canonicalSkillFile metadata)
  | .error error =>
      if isErrnoCode error "ENOENT" then return .skipped
      else
        match error with
        | .instructions e =>
            return .invalid (invalidEntry descriptor skillDirectory skillFile e.code e.message)
        | _ => throw error

/-- The turn of the loop from the canonical directory on. -/
def discoverSkillDirectory (descriptor : SkillRootDescriptor)
    (root entryName skillDirectory : JsString) : Async SkillEntry := do
  let skillFile := join skillDirectory skillFileName
  let displayed := displaySkillPath descriptor.displayBase skillFile
  let canonicalSkillFile ← attempt (realpath skillFile)
  match canonicalSkillFile with
  | .error error =>
      if isErrnoCode error "ENOENT" then return .skipped
      else
        return .invalid (invalidEntry descriptor skillDirectory skillFile .skillFileInaccessible
          (js "SKILL.md is inaccessible: " ++ displayed))
  | .ok canonicalSkillFile =>
      if !isSameOrDescendant root canonicalSkillFile then
        return .invalid (invalidEntry descriptor skillDirectory skillFile .skillFileOutsideRoot
          (js "SKILL.md resolves outside skill root: " ++ displayed))
      else
        discoverSkillFile sha256 parseDocument descriptor entryName skillDirectory skillFile
          canonicalSkillFile

/-- One turn of the loop over the entries of a root. -/
def discoverSkillEntry (descriptor : SkillRootDescriptor) (root : JsString) (entry : Dirent) :
    Async SkillEntry := do
  if entry.type ≠ .directory ∧ entry.type ≠ .symlink then return .skipped
  else do
    let skillDirectory ← attempt (realpath (join root entry.name))
    match skillDirectory with
    | .error _ => return .skipped
    | .ok skillDirectory =>
        if !isSameOrDescendant root skillDirectory then return .skipped
        else
          discoverSkillDirectory sha256 parseDocument descriptor root entry.name skillDirectory

/-- The loop over the entries. -/
def discoverSkillEntries (descriptor : SkillRootDescriptor) (root : JsString)
    (entries : List Dirent) : Async (List SkillEntry) :=
  collect (discoverSkillEntry sha256 parseDocument descriptor root) entries

/-- The entries of a directory in the order of their names. -/
def sortEntries (entries : List Dirent) : List Dirent :=
  entries.insertionSort fun left right => compareCodePoints left.name right.name ≤ 0

/-- What is found in a root that is there. -/
def discoverExistingRoot (descriptor : SkillRootDescriptor) (root : JsString) :
    Async SkillDiscoveryResult := do
  failWhen (descriptor.boundaryRoot.any fun boundary => !isSameOrDescendant boundary root)
    .skillRootOutsideWorkspace descriptor.rootCandidate
    (js "skill root " ++ descriptor.sourceId ++ js " resolves outside its allowed boundary")
  let entries ← os (.readdir root)
  let found ← discoverSkillEntries sha256 parseDocument descriptor root (sortEntries entries)
  return { skills := found.filterMap SkillEntry.skill?
           invalid := found.filterMap SkillEntry.invalid? }

/-- `discoverSkillRoot(descriptor)`. -/
def discoverSkillRoot (descriptor : SkillRootDescriptor) : Async SkillDiscoveryResult := do
  let root ← attempt (realpath descriptor.rootCandidate)
  match root with
  | .error error =>
      if isErrnoCode error "ENOENT" then return { skills := [], invalid := [] }
      else
        fail .skillRootInaccessible descriptor.rootCandidate
          (js "skill root " ++ descriptor.sourceId ++ js " is inaccessible")
  | .ok root => discoverExistingRoot sha256 parseDocument descriptor root

/-- The batches of `Promise.all`. The functions only read, so their calls are
made one root after the other here. -/
def discoverSkillRoots (descriptors : List SkillRootDescriptor) :
    Async (List SkillDiscoveryResult) :=
  collect (discoverSkillRoot sha256 parseDocument) descriptors

end

/-- `compareDiscoveredSkills(left, right)`. -/
def compareDiscoveredSkills (left right : DiscoveredSkill) : Int :=
  if (left.precedence : Int) - right.precedence ≠ 0 then left.precedence - right.precedence
  else if compareCodePoints left.summary.name right.summary.name ≠ 0 then
    compareCodePoints left.summary.name right.summary.name
  else compareCodePoints left.summary.sourceId right.summary.sourceId

/-- `join(base, first, second)`. -/
def joinTwo (base first second : JsString) : JsString :=
  Posix.normalize (base ++ slash :: first ++ slash :: second)

/-- A root of the user. -/
def userRoot (homeDirectory : JsString) (sourceKind : SkillSourceKind) (precedence : Nat)
    (directory : String) : SkillRootDescriptor where
  sourceId := js sourceKind.text
  sourceKind
  precedence
  rootCandidate := joinTwo homeDirectory (js directory) (js "skills")
  boundaryRoot := none
  displayBase := none

/-- The roots, in the order of their precedence. -/
def skillRoots (workspaceRoot homeDirectory : JsString) : List SkillRootDescriptor :=
  [{ sourceId := js "project"
     sourceKind := .project
     precedence := 0
     rootCandidate := joinTwo workspaceRoot (js ".agents") (js "skills")
     boundaryRoot := some workspaceRoot
     displayBase := some workspaceRoot },
   userRoot homeDirectory .benchhandUser 100 ".benchhand",
   userRoot homeDirectory .agentsUser 200 ".agents",
   userRoot homeDirectory .codexUser 300 ".codex",
   userRoot homeDirectory .devspaceCompat 400 ".devspace"]

/-- The skills of all batches, sorted, and their invalid entries. -/
def mergeBatches (batches : List SkillDiscoveryResult) : SkillDiscoveryResult where
  skills := (batches.flatMap SkillDiscoveryResult.skills).insertionSort fun left right =>
    compareDiscoveredSkills left right ≤ 0
  invalid := batches.flatMap SkillDiscoveryResult.invalid

/-- `#discoverSkills(workspaceRoot)`. -/
def Service.discoverSkills (service : Service) (workspaceRoot : JsString) :
    Async SkillDiscoveryResult :=
  mergeBatches <$> discoverSkillRoots service.sha256 service.parseDocument
    (skillRoots workspaceRoot service.homeDirectory)

/-! ## Listing -/

/-- The loop over the discovered skills: the first one of each name is selected,
the others are shadowed. -/
def selectSkills (discovered : List DiscoveredSkill) : List SkillSummary × List SkillSummary :=
  selectFirst SkillSummary.name (discovered.map DiscoveredSkill.summary) []

/-- `InstructionsService.listSkills(request)`. -/
def Service.listSkills (service : Service) (request : SkillsListRequest) :
    Async SkillsListResult := do
  let workspace ← ofExcept (service.requireWorkspace request.workspaceId)
  let workspaceRoot ← canonicalWorkspaceRoot workspace
  let discovered ← service.discoverSkills workspaceRoot
  return { workspaceId := request.workspaceId
           skills := (selectSkills discovered.skills).1
           shadowed := (selectSkills discovered.skills).2
           invalid := discovered.invalid }

/-! ## Reading -/

/-- What is made of the bytes of a SKILL.md. -/
def readSkillContent (sha256 : Bytes → JsString) (workspaceId : JsString)
    (candidate : DiscoveredSkill) (buffer : Bytes) : Except Thrown SkillsReadResult :=
  let path := candidate.summary.skillFilePath
  if maxInstructionBytes < buffer.length then
    thrown .skillTooLarge path
      (js "skill file exceeds " ++ decimal maxInstructionBytes ++ js " bytes")
  else
    (decodeInstructionText buffer path).map fun content =>
      { workspaceId, skill := candidate.summary, content, sha256 := sha256 buffer }

/-- The checks of `readSkill` on the id. -/
def checkSkillId (skillId : JsString) : Except Thrown PUnit.{1} :=
  if skillId = [] ∨ (0 : UInt16) ∈ skillId then
    .error (.instructions
      { code := .invalidSkillId, path := none
        message := js "skillId must be a non-empty NUL-free string" })
  else .ok ⟨⟩

/-- `InstructionsService.readSkill(request)`. -/
def Service.readSkill (service : Service) (request : SkillsReadRequest) :
    Async SkillsReadResult := do
  ofExcept (checkSkillId request.skillId)
  let workspace ← ofExcept (service.requireWorkspace request.workspaceId)
  let workspaceRoot ← canonicalWorkspaceRoot workspace
  let discovered ← service.discoverSkills workspaceRoot
  match discovered.skills.find? fun entry => entry.summary.skillId = request.skillId with
  | none =>
      fail .skillNotFound request.skillId
        (js "skill " ++ request.skillId ++ js " was not found")
  | some candidate => do
      let buffer ← tryCatch (readFile candidate.skillFilePath) fun _ =>
        fail .skillInaccessible candidate.summary.skillFilePath
          (js "skill " ++ request.skillId ++ js " is inaccessible")
      ofExcept (readSkillContent service.sha256 request.workspaceId candidate buffer)

end Benchhand.Instructions
