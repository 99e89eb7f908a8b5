/-
Benchhand.Contracts.WorkspaceRecord — the record of a workspace.

`parseWorkspaceRecord` checks the fields of an object against
WorkspaceRecordSchema. The lengths in it are counted by typebox; `Lengths` is
that count, of which only the documented part is used.
-/
import Benchhand.Js.Value

namespace Benchhand.Contracts

open Text Js

inductive WorkspaceMode where
  | checkout
  | worktree
  deriving DecidableEq

inductive WorkspaceStatus where
  | available
  | missing
  | inaccessible
  | invalid
  deriving DecidableEq

def WorkspaceStatus.text : WorkspaceStatus → String
  | .available => "available"
  | .missing => "missing"
  | .inaccessible => "inaccessible"
  | .invalid => "invalid"

structure WorkspaceRecord where
  workspaceId : JsString
  canonicalPath : JsString
  requestedPath : JsString
  mode : WorkspaceMode
  repoRoot : Option JsString
  worktreePath : Option JsString
  baseRef : Option JsString
  branch : Option JsString
  createdAt : JsString
  lastUsedAt : JsString
  ownerInstance : Option JsString
  status : WorkspaceStatus
  metadataVersion : Nat
  deriving DecidableEq

/-- How typebox counts the characters of a string: a string that is not empty
has some, and not more than code units. -/
structure Lengths where
  length : JsString → Nat
  pos : ∀ s, s ≠ [] → 1 ≤ length s
  le : ∀ s, length s ≤ s.length

/-- Strings measured in code units. -/
def Lengths.codeUnits : Lengths where
  length := List.length
  pos _ h := List.length_pos_iff.mpr h
  le _ := Nat.le_refl _

/-- `Type.Union([Type.String({ minLength: 1 }), Type.Null()])`. -/
def Lengths.checkNullable (L : Lengths) : Option JsString → Bool
  | none => true
  | some s => 1 ≤ L.length s

/-- `Value.Check(WorkspaceRecordSchema, record)`. -/
def WorkspaceRecord.check (L : Lengths) (r : WorkspaceRecord) : Bool :=
  1 ≤ L.length r.workspaceId && L.length r.workspaceId ≤ 256 && 1 ≤ L.length r.canonicalPath &&
    1 ≤ L.length r.requestedPath && L.checkNullable r.repoRoot && L.checkNullable r.worktreePath &&
    L.checkNullable r.baseRef && L.checkNullable r.branch && 1 ≤ L.length r.createdAt &&
    1 ≤ L.length r.lastUsedAt && L.checkNullable r.ownerInstance && 1 ≤ r.metadataVersion

theorem WorkspaceRecord.check_iff {L : Lengths} {r : WorkspaceRecord} : r.check L = true ↔
    1 ≤ L.length r.workspaceId ∧ L.length r.workspaceId ≤ 256 ∧ 1 ≤ L.length r.canonicalPath ∧
      1 ≤ L.length r.requestedPath ∧ L.checkNullable r.repoRoot = true ∧
      L.checkNullable r.worktreePath = true ∧ L.checkNullable r.baseRef = true ∧
      L.checkNullable r.branch = true ∧ 1 ≤ L.length r.createdAt ∧ 1 ≤ L.length r.lastUsedAt ∧
      L.checkNullable r.ownerInstance = true ∧ 1 ≤ r.metadataVersion := by
  simp only [check, Bool.and_eq_true, decide_eq_true_eq, and_assoc]

theorem Lengths.checkNullable_some {L : Lengths} {s : JsString} (h : s ≠ []) :
    L.checkNullable (some s) = true := decide_eq_true (L.pos s h)

theorem Lengths.checkNullable_of_ne {L : Lengths} {s : Option JsString} (h : s ≠ some []) :
    L.checkNullable s = true := by
  cases s with
  | none => rfl
  | some s => exact checkNullable_some fun hs => h (congrArg some hs)

/-- `parseWorkspaceRecord(value)`. -/
def parseWorkspaceRecord (L : Lengths) (r : WorkspaceRecord) : Except JsError WorkspaceRecord :=
  if r.check L then .ok r else .error (.typeError (js "invalid workspace record"))

theorem parseWorkspaceRecord_eq_ok {L : Lengths} {r r' : WorkspaceRecord}
    (h : parseWorkspaceRecord L r = .ok r') : r' = r := by
  unfold parseWorkspaceRecord at h
  split at h
  · exact (Except.ok.inj h).symm
  · cases h

end Benchhand.Contracts
