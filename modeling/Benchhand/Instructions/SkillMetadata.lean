/-
Benchhand.Instructions.SkillMetadata — the frontmatter of a SKILL.md.

`readSkillMetadata` decodes the first bytes of the file, cuts out the
frontmatter, has it parsed and checks what the parser returns. The parser is
the `yaml` package: what it makes of a text is a parameter.
-/
import Benchhand.Instructions.Call
import Benchhand.Instructions.Results
import Benchhand.Text.IndexOf

namespace Benchhand.Instructions

open Text Js

def maxInstructionBytes : Nat := 256 * 1024

def maxSkillFrontmatterBytes : Nat := 64 * 1024

def thrown {α : Type} (code : ErrorCode) (path message : JsString) : Except Thrown α :=
  .error (.instructions { code, path := some path, message })

/-! ## Text -/

/-- `decodeInstructionText(buffer, path)`. -/
def decodeInstructionText (buffer : Bytes) (path : JsString) : Except Thrown JsString :=
  if (0 : UInt8) ∈ buffer then
    thrown .instructionBinaryUnsupported path
      (js "instruction file contains binary content: " ++ path)
  else
    match decodeUtf8Fatal buffer with
    | some text => .ok text
    | none =>
        thrown .instructionBinaryUnsupported path
          (js "instruction file is not valid UTF-8 text: " ++ path)

theorem decodeInstructionText_ok_iff {bytes : Bytes} {path content : JsString} :
    decodeInstructionText bytes path = .ok content ↔
      (0 : UInt8) ∉ bytes ∧ decodeUtf8Fatal bytes = some content := by
  unfold decodeInstructionText
  split
  · rename_i hbinary
    exact ⟨fun h => (by cases h), fun h => absurd hbinary h.1⟩
  · rename_i htext
    cases decodeUtf8Fatal bytes with
    | none => exact ⟨fun h => (by cases h), fun h => (by cases h.2)⟩
    | some text =>
        exact ⟨fun h => ⟨htext, congrArg some (Except.ok.inj h)⟩,
          fun h => congrArg Except.ok (Option.some.inj h.2)⟩

def lineFeed : UInt16 := ch '\n'

def carriageReturn : UInt16 := ch '\r'

/-- `source.replaceAll('\r\n', '\n')`. -/
def replaceCrLf : JsString → JsString
  | [] => []
  | [u] => [u]
  | u :: v :: rest =>
      if u = carriageReturn ∧ v = lineFeed then lineFeed :: replaceCrLf rest
      else u :: replaceCrLf (v :: rest)

/-- The fence `---`. -/
def fence : JsString := js "---"

/-- `extractSkillFrontmatter(source, path)`. -/
def extractSkillFrontmatter (source path : JsString) : Except Thrown JsString :=
  let normalized := replaceCrLf source
  if !(fence ++ [lineFeed]).isPrefixOf normalized then
    thrown .invalidSkillFrontmatter path (js "SKILL.md must start with YAML frontmatter")
  else
    match indexOf normalized (lineFeed :: fence ++ [lineFeed]) 4 with
    | none =>
        thrown .skillFrontmatterTooLarge path
          (js "SKILL.md frontmatter must close within " ++ decimal maxSkillFrontmatterBytes ++
            js " bytes")
    | some closing => .ok ((normalized.take closing).drop 4)

/-! ## Metadata -/

/-- What `parseDocument(text, { uniqueKeys: true })` returns: the messages of
its errors, and what `toJS({ maxAliasCount: 0 })` returns or throws. -/
structure YamlDocument where
  errors : List JsString
  toJs : Except JsError Graph

structure ParsedSkillMetadata where
  name : JsString
  description : JsString
  metadataSha256 : JsString
  license : Option JsString
  compatibility : Option JsString
  metadata : StringRecord
  allowedTools : Option JsString
  deriving DecidableEq

/-- `/^[a-z0-9]+(?:-[a-z0-9]+)*$/`. -/
def isSkillName (name : JsString) : Bool :=
  (name.splitOn (ch '-')).all fun part =>
    part ≠ [] && part.all fun u => (ch 'a' ≤ u && u ≤ ch 'z') || (ch '0' ≤ u && u ≤ ch '9')

/-- `readSkillString(value, field, minimum, maximum, path)`. -/
def readSkillString (value : Value) (field : String) (minimum maximum : Nat) (path : JsString) :
    Except Thrown JsString :=
  let invalid := thrown .invalidSkillMetadata path
    (js "skill " ++ js field ++ js " must be a string between " ++ decimal minimum ++
      js " and " ++ decimal maximum ++ js " characters")
  match value with
  | .string s => if s.length < minimum ∨ maximum < s.length then invalid else .ok s
  | _ => invalid

/-- `optionalSkillString(value, field, minimum, maximum, path)`. -/
def optionalSkillString (value : Value) (field : String) (minimum maximum : Nat)
    (path : JsString) : Except Thrown (Option JsString) :=
  match value with
  | .undefined => .ok none
  | _ => (readSkillString value field minimum maximum path).map some

/-- An own property with this name is not created by an assignment. -/
def protoKey : JsString := js "__proto__"

/-- The loop of `readSkillMetadataMap`. -/
def stringEntries (path : JsString) : List (JsString × Value) →
    Except Thrown (List (JsString × JsString))
  | [] => .ok []
  | (key, .string item) :: rest => (stringEntries path rest).map fun entries =>
      if key = protoKey then entries else (key, item) :: entries
  | _ :: _ =>
      thrown .invalidSkillMetadata path (js "skill metadata values must be strings")

theorem keys_stringEntries {path : JsString} : ∀ {entries : List (JsString × Value)}
    {result : List (JsString × JsString)}, stringEntries path entries = .ok result →
      (result.map Prod.fst).Sublist (entries.map Prod.fst)
  | [], result, h => by
      obtain rfl := Except.ok.inj h
      exact List.Sublist.refl _
  | (key, value) :: rest, result, h => by
      cases value with
      | string item =>
          rw [stringEntries] at h
          cases hrest : stringEntries path rest with
          | error e =>
              rw [hrest] at h
              cases h
          | ok entries =>
              rw [hrest] at h
              have ih := keys_stringEntries hrest
              obtain rfl := Except.ok.inj h
              split
              · exact ih.cons key
              · exact ih.cons_cons key
      | _ => cases h

/-- The metadata of entries whose keys are distinct. -/
def stringRecord (path : JsString) (entries : List (JsString × Value))
    (hnodup : (entries.map Prod.fst).Nodup) : Except Thrown StringRecord :=
  match h : stringEntries path entries with
  | .ok result => .ok ⟨result, hnodup.sublist (keys_stringEntries h)⟩
  | .error e => .error e

def StringRecord.empty : StringRecord := ⟨[], List.nodup_nil⟩

def metadataNotMap (path : JsString) : Except Thrown StringRecord :=
  thrown .invalidSkillMetadata path
    (js "skill metadata must be a map of string keys to string values")

/-- `readSkillMetadataMap(value, path)`. -/
def readSkillMetadataMap (h : Heap) (value : Value) (path : JsString) :
    Except Thrown StringRecord :=
  match value with
  | .undefined => .ok .empty
  | .object r =>
      match h.objs[r]? with
      | some (.plain _ props) => stringRecord path props.entries props.nodup
      | _ => metadataNotMap path
  | _ => metadataNotMap path

/-- The frontmatter is a map: an object that is no array. -/
def isMap (value : Graph) : Bool :=
  match value.root with
  | .object r =>
      match value.heap.objs[r]? with
      | some (.plain _ _) => true
      | _ => false
  | _ => false

section
variable (sha256 : Bytes → JsString)

/-- `validateSkillMetadata(value, parentDirectoryName, rawFrontmatter, path)`. -/
def validateSkillMetadata (value : Graph) (parentDirectoryName rawFrontmatter path : JsString) :
    Except Thrown ParsedSkillMetadata := do
  let data (key : String) := value.heap.property value.root (js key)
  if !isMap value then
    thrown .invalidSkillMetadata path (js "SKILL.md frontmatter must be a map")
  else do
    let name ← readSkillString (data "name") "name" 1 64 path
    if !isSkillName name || name != parentDirectoryName then
      thrown .invalidSkillName path
        (js "skill name must use lowercase letters, numbers, single hyphens, and match its " ++
          js "parent directory")
    else do
      let description ← readSkillString (data "description") "description" 1 1024 path
      let license ← optionalSkillString (data "license") "license" 1 1024 path
      let compatibility ← optionalSkillString (data "compatibility") "compatibility" 1 500 path
      let allowedTools ← optionalSkillString (data "allowed-tools") "allowed-tools" 1 4096 path
      let metadata ← readSkillMetadataMap value.heap (data "metadata") path
      return { name, description, metadataSha256 := sha256 (encodeUtf8 rawFrontmatter), license
               compatibility, metadata, allowedTools }

/-- What the parser makes of a frontmatter, checked. -/
def checkFrontmatter (parseDocument : JsString → YamlDocument) (frontmatter skillFile
    parentDirectoryName : JsString) : Except Thrown ParsedSkillMetadata :=
  match (parseDocument frontmatter).errors with
  | message :: _ =>
      thrown .invalidSkillFrontmatter skillFile
        (js "invalid SKILL.md YAML frontmatter: " ++ message)
  | [] =>
      match (parseDocument frontmatter).toJs with
      | .error e => .error (.error e)
      | .ok value =>
          validateSkillMetadata sha256 value parentDirectoryName frontmatter skillFile

/-- The body of the `try`, from the bytes that were read on. -/
def parseSkillMetadata (parseDocument : JsString → YamlDocument) (bytes : Bytes)
    (skillFile parentDirectoryName : JsString) : Except Thrown ParsedSkillMetadata := do
  let source ← decodeInstructionText bytes skillFile
  let frontmatter ← extractSkillFrontmatter source skillFile
  checkFrontmatter sha256 parseDocument frontmatter skillFile parentDirectoryName

/-- `readSkillMetadata(skillFile, parentDirectoryName)`. -/
def readSkillMetadata (parseDocument : JsString → YamlDocument)
    (skillFile parentDirectoryName : JsString) : Async ParsedSkillMetadata := do
  let handle ← os (.openRead skillFile)
  tryFinally
    (do
      let bytes ← os (.read handle 0 (maxSkillFrontmatterBytes + 1))
      ofExcept (parseSkillMetadata sha256 parseDocument bytes skillFile parentDirectoryName))
    (os (.close handle))

end

end Benchhand.Instructions
