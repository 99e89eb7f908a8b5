/-
Benchhand.Instructions.Error — InstructionsError and what the functions throw.

A function of the package throws an InstructionsError, lets an exception of a
system call through, or throws what a library function throws. The cause of an
error is never read, so it is left out.
-/
import Benchhand.Js.Value
import Benchhand.Posix.Volume

namespace Benchhand.Instructions

open Text Posix

/-! ## Errors -/

/-- The codes of InstructionsError. -/
inductive ErrorCode where
  | workspaceNotFound
  | workspaceUnavailable
  | invalidPath
  | pathOutsideWorkspace
  | scopeTooDeep
  | scopeNotFound
  | scopeInaccessible
  | scopeNotDirectory
  | instructionPathOutsideWorkspace
  | instructionSourceNotFile
  | instructionTooLarge
  | instructionsTooLarge
  | instructionBinaryUnsupported
  | instructionInaccessible
  | instructionChangedDuringRead
  | instructionProviderFailed
  | invalidProviderOutput
  | skillRootInaccessible
  | skillRootOutsideWorkspace
  | skillFileInaccessible
  | skillFileOutsideRoot
  | skillFrontmatterTooLarge
  | invalidSkillFrontmatter
  | invalidSkillMetadata
  | invalidSkillName
  | invalidSkillId
  | skillNotFound
  | skillInaccessible
  | skillTooLarge
  deriving DecidableEq

def ErrorCode.text : ErrorCode → String
  | .workspaceNotFound => "WORKSPACE_NOT_FOUND"
  | .workspaceUnavailable => "WORKSPACE_UNAVAILABLE"
  | .invalidPath => "INVALID_PATH"
  | .pathOutsideWorkspace => "PATH_OUTSIDE_WORKSPACE"
  | .scopeTooDeep => "SCOPE_TOO_DEEP"
  | .scopeNotFound => "SCOPE_NOT_FOUND"
  | .scopeInaccessible => "SCOPE_INACCESSIBLE"
  | .scopeNotDirectory => "SCOPE_NOT_DIRECTORY"
  | .instructionPathOutsideWorkspace => "INSTRUCTION_PATH_OUTSIDE_WORKSPACE"
  | .instructionSourceNotFile => "INSTRUCTION_SOURCE_NOT_FILE"
  | .instructionTooLarge => "INSTRUCTION_TOO_LARGE"
  | .instructionsTooLarge => "INSTRUCTIONS_TOO_LARGE"
  | .instructionBinaryUnsupported => "INSTRUCTION_BINARY_UNSUPPORTED"
  | .instructionInaccessible => "INSTRUCTION_INACCESSIBLE"
  | .instructionChangedDuringRead => "INSTRUCTION_CHANGED_DURING_READ"
  | .instructionProviderFailed => "INSTRUCTION_PROVIDER_FAILED"
  | .invalidProviderOutput => "INVALID_PROVIDER_OUTPUT"
  | .skillRootInaccessible => "SKILL_ROOT_INACCESSIBLE"
  | .skillRootOutsideWorkspace => "SKILL_ROOT_OUTSIDE_WORKSPACE"
  | .skillFileInaccessible => "SKILL_FILE_INACCESSIBLE"
  | .skillFileOutsideRoot => "SKILL_FILE_OUTSIDE_ROOT"
  | .skillFrontmatterTooLarge => "SKILL_FRONTMATTER_TOO_LARGE"
  | .invalidSkillFrontmatter => "INVALID_SKILL_FRONTMATTER"
  | .invalidSkillMetadata => "INVALID_SKILL_METADATA"
  | .invalidSkillName => "INVALID_SKILL_NAME"
  | .invalidSkillId => "INVALID_SKILL_ID"
  | .skillNotFound => "SKILL_NOT_FOUND"
  | .skillInaccessible => "SKILL_INACCESSIBLE"
  | .skillTooLarge => "SKILL_TOO_LARGE"

structure InstructionsError where
  code : ErrorCode
  path : Option JsString
  message : JsString
  deriving DecidableEq

/-- What a function of the package rejects with. -/
inductive Thrown where
  | instructions (e : InstructionsError)
  | errno (e : Errno)
  | error (e : Js.JsError)
  deriving DecidableEq

/-- `isErrnoCode(error, code)`. The codes of InstructionsError are none of
those it is asked for. -/
def isErrnoCode (error : Thrown) (code : String) : Bool :=
  match error with
  | .errno e => e.code == js code
  | _ => false

end Benchhand.Instructions
