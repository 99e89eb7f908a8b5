/-
Benchhand.Rpc.Results — the results of the services as JSON values.

The services return plain objects, which are sent as they are; the keys here are
the fields of their types.
-/
import Benchhand.Filesystem.List
import Benchhand.Filesystem.Patch
import Benchhand.Filesystem.Search
import Benchhand.Instructions.Results
import Benchhand.Rpc.Message

namespace Benchhand.Rpc

open Text Js

/-! ## Objects -/

theorem js_injective : Function.Injective js := fun s t h => by
  have hlist := congrArg scalars h
  rw [js, js, scalars_flatMap_units, scalars_flatMap_units] at hlist
  exact String.toList_injective hlist

/-- An object literal. -/
def objectOf (fields : List (String × JsonTree)) (h : (fields.map Prod.fst).Nodup) : JsonTree :=
  .object (fields.map fun field => (js field.1, field.2)) <| by
    have hkeys : (fields.map fun field => (js field.1, field.2)).map Prod.fst =
        (fields.map Prod.fst).map js := by
      rw [List.map_map, List.map_map]
      rfl
    rw [hkeys]
    exact h.map js_injective

def orNullString (value : Option JsString) : JsonTree := .orNull .string value

def orNullNat (value : Option Nat) : JsonTree := .orNull .nat value

/-! ## Files -/

open Filesystem in
def FileClassification.text : FileClassification → String
  | .text => "text"
  | .binary => "binary"

/-- `direntType(dirent)`. -/
def ObjectType.text : Posix.ObjectType → String
  | .file => "file"
  | .directory => "directory"
  | .symlink => "symlink"
  | .other => "other"

open Filesystem in
def Durability.text : Durability → String
  | .fileAndDirectory => "file-and-directory"
  | .fileOnly => "file-only"

def readResultJson (r : Filesystem.ReadResult) : JsonTree :=
  objectOf
    [("path", .string r.path), ("classification", .string (js (FileClassification.text r.classification))),
      ("size", .nat r.size), ("offset", .nat r.offset), ("bytesRead", .nat r.bytesRead),
      ("eof", .boolean r.eof), ("truncated", .boolean r.truncated),
      ("content", orNullString r.content)]
    (by simp)

def listEntryJson (e : Filesystem.ListEntry) : JsonTree :=
  objectOf
    [("name", .string e.name), ("path", .string e.path),
      ("type", .string (js (ObjectType.text e.type))), ("size", orNullNat e.size)]
    (by simp)

def listResultJson (r : Filesystem.ListResult) : JsonTree :=
  objectOf
    [("path", .string r.path), ("entries", .array (r.entries.map listEntryJson)),
      ("nextCursor", orNullString r.nextCursor)]
    (by simp)

def searchMatchJson (m : Filesystem.SearchMatch) : JsonTree :=
  objectOf
    [("path", .string m.path), ("line", orNullNat m.line), ("column", orNullNat m.column),
      ("preview", orNullString m.preview)]
    (by simp)

def searchResultJson (r : Filesystem.SearchResult) : JsonTree :=
  objectOf
    [("path", .string r.path), ("glob", .string r.glob), ("query", orNullString r.query),
      ("matches", .array (r.matches.map searchMatchJson)), ("truncated", .boolean r.truncated),
      ("scannedFiles", .nat r.scannedFiles), ("skippedBinary", .nat r.skippedBinary),
      ("skippedOversized", .nat r.skippedOversized)]
    (by simp)

def writeResultJson (r : Filesystem.WriteResult) : JsonTree :=
  objectOf
    [("path", .string r.path), ("created", .boolean r.created),
      ("previousSha256", orNullString r.previousSha256), ("sha256", .string r.sha256),
      ("bytesWritten", .nat r.bytesWritten),
      ("durability", .string (js (Durability.text r.durability)))]
    (by simp)

def patchResultJson (r : Filesystem.PatchResult) : JsonTree :=
  objectOf
    [("path", .string r.path), ("previousSha256", .string r.previousSha256),
      ("sha256", .string r.sha256), ("editsApplied", .nat r.editsApplied),
      ("bytesWritten", .nat r.bytesWritten),
      ("durability", .string (js (Durability.text r.durability)))]
    (by simp)

/-! ## Instructions and skills -/

open Instructions

def documentJson (d : InstructionDocument) : JsonTree :=
  objectOf
    [("providerId", .string d.providerId), ("scopePath", .string d.scopePath),
      ("sourceId", .string d.sourceId), ("path", orNullString d.path),
      ("content", .string d.content), ("sha256", .string d.sha256)]
    (by simp)

def resolveResultJson (r : InstructionsResolveResult) : JsonTree :=
  objectOf
    [("workspaceId", .string r.workspaceId), ("scopePath", .string r.scopePath),
      ("scopes", .array (r.scopes.map .string)), ("documents", .array (r.documents.map documentJson))]
    (by simp)

/-- A `Record<string, string>`. -/
def stringRecordJson (r : StringRecord) : JsonTree :=
  .object (r.entries.map fun entry => (entry.1, .string entry.2)) <| by
    rw [List.map_map]
    exact r.nodup

def skillSummaryJson (s : SkillSummary) : JsonTree :=
  objectOf
    [("skillId", .string s.skillId), ("name", .string s.name),
      ("description", .string s.description), ("sourceId", .string s.sourceId),
      ("sourceKind", .string (js s.sourceKind.text)),
      ("skillDirectoryPath", .string s.skillDirectoryPath),
      ("skillFilePath", .string s.skillFilePath), ("metadataSha256", .string s.metadataSha256),
      ("license", orNullString s.license), ("compatibility", orNullString s.compatibility),
      ("metadata", stringRecordJson s.metadata), ("allowedTools", orNullString s.allowedTools)]
    (by simp)

def invalidSkillJson (e : InvalidSkillEntry) : JsonTree :=
  objectOf
    [("sourceId", .string e.sourceId), ("sourceKind", .string (js e.sourceKind.text)),
      ("skillDirectoryPath", .string e.skillDirectoryPath),
      ("skillFilePath", orNullString e.skillFilePath), ("errorCode", .string e.errorCode),
      ("message", .string e.message)]
    (by simp)

def skillsListResultJson (r : SkillsListResult) : JsonTree :=
  objectOf
    [("workspaceId", .string r.workspaceId), ("skills", .array (r.skills.map skillSummaryJson)),
      ("shadowed", .array (r.shadowed.map skillSummaryJson)),
      ("invalid", .array (r.invalid.map invalidSkillJson))]
    (by simp)

def skillsReadResultJson (r : SkillsReadResult) : JsonTree :=
  objectOf
    [("workspaceId", .string r.workspaceId), ("skill", skillSummaryJson r.skill),
      ("content", .string r.content), ("sha256", .string r.sha256)]
    (by simp)

/-! ## Workspaces -/

open Contracts

def WorkspaceMode.text : WorkspaceMode → String
  | .checkout => "checkout"
  | .worktree => "worktree"

def workspaceRecordJson (r : Contracts.WorkspaceRecord) : JsonTree :=
  objectOf
    [("workspaceId", .string r.workspaceId), ("canonicalPath", .string r.canonicalPath),
      ("requestedPath", .string r.requestedPath), ("mode", .string (js (WorkspaceMode.text r.mode))),
      ("repoRoot", orNullString r.repoRoot), ("worktreePath", orNullString r.worktreePath),
      ("baseRef", orNullString r.baseRef), ("branch", orNullString r.branch),
      ("createdAt", .string r.createdAt), ("lastUsedAt", .string r.lastUsedAt),
      ("ownerInstance", orNullString r.ownerInstance), ("status", .string (js r.status.text)),
      ("metadataVersion", .nat r.metadataVersion)]
    (by simp)

end Benchhand.Rpc
