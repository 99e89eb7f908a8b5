/-
Benchhand.Instructions.Results — what the instructions service returns.
-/
import Benchhand.Text.Unicode
import Mathlib.Data.List.Basic

namespace Benchhand.Instructions

open Text

/-! ## Instructions -/

structure InstructionDocument where
  providerId : JsString
  scopePath : JsString
  sourceId : JsString
  path : Option JsString
  content : JsString
  sha256 : JsString
  deriving DecidableEq

structure InstructionsResolveResult where
  workspaceId : JsString
  scopePath : JsString
  scopes : List JsString
  documents : List InstructionDocument
  deriving DecidableEq

/-! ## Skills -/

inductive SkillSourceKind where
  | project
  | benchhandUser
  | agentsUser
  | codexUser
  | devspaceCompat
  | configured
  deriving DecidableEq

def SkillSourceKind.text : SkillSourceKind → String
  | .project => "project"
  | .benchhandUser => "benchhand-user"
  | .agentsUser => "agents-user"
  | .codexUser => "codex-user"
  | .devspaceCompat => "devspace-compat"
  | .configured => "configured"

/-- A `Record<string, string>`: each key once, in order. -/
structure StringRecord where
  entries : List (JsString × JsString)
  nodup : (entries.map Prod.fst).Nodup
  deriving DecidableEq

structure SkillSummary where
  skillId : JsString
  name : JsString
  description : JsString
  sourceId : JsString
  sourceKind : SkillSourceKind
  skillDirectoryPath : JsString
  skillFilePath : JsString
  metadataSha256 : JsString
  license : Option JsString
  compatibility : Option JsString
  metadata : StringRecord
  allowedTools : Option JsString
  deriving DecidableEq

structure InvalidSkillEntry where
  sourceId : JsString
  sourceKind : SkillSourceKind
  skillDirectoryPath : JsString
  skillFilePath : Option JsString
  errorCode : JsString
  message : JsString
  deriving DecidableEq

structure SkillsListResult where
  workspaceId : JsString
  skills : List SkillSummary
  shadowed : List SkillSummary
  invalid : List InvalidSkillEntry
  deriving DecidableEq

structure SkillsReadResult where
  workspaceId : JsString
  skill : SkillSummary
  content : JsString
  sha256 : JsString
  deriving DecidableEq

end Benchhand.Instructions
