/-
Benchhand.Instructions.SkillMetadataTheorems — what a frontmatter is cut out of.

`extractSkillFrontmatter` looks for the closing fence from the second line of
the frontmatter on, so it finds the first one unless the frontmatter is empty
(`extract_closed`, `extract_open`). Before that the bytes are decoded as a
whole, and they may end inside of a character. Two files with one header get
one outcome exactly when neither of the two makes a difference
(`metadata_of_header`).
-/
import Benchhand.Instructions.Host
import Benchhand.Instructions.SkillMetadata

namespace Benchhand.Instructions

open Text Posix Process Js

/-! ## Lines -/

/-- The lines of a text that has its line feeds normalised. -/
def linesOf (text : JsString) : List JsString := (replaceCrLf text).splitOn lineFeed

theorem replaceCrLf_append : ∀ {a b : JsString},
    ¬ (a.getLast? = some carriageReturn ∧ b.head? = some lineFeed) →
      replaceCrLf (a ++ b) = replaceCrLf a ++ replaceCrLf b
  | [], _, _ => rfl
  | [u], [], _ => rfl
  | [u], v :: b, h => by
      have hnot : ¬ (u = carriageReturn ∧ v = lineFeed) := by
        rintro ⟨rfl, rfl⟩
        exact h ⟨rfl, rfl⟩
      change replaceCrLf (u :: v :: b) = u :: replaceCrLf (v :: b)
      rw [replaceCrLf, if_neg hnot]
  | u :: v :: a, b, h => by
      have hlast : (u :: v :: a).getLast? = (v :: a).getLast? := List.getLast?_cons_cons
      rw [hlast] at h
      change replaceCrLf (u :: v :: (a ++ b)) = replaceCrLf (u :: v :: a) ++ _
      rw [replaceCrLf, replaceCrLf]
      split
      · have hrest : ¬ (a.getLast? = some carriageReturn ∧ b.head? = some lineFeed) := by
          rintro ⟨ha, hb⟩
          have hne : a ≠ [] := by
            rintro rfl
            cases ha
          rw [List.getLast?_cons_of_ne_nil hne] at h
          exact h ⟨ha, hb⟩
        rw [replaceCrLf_append hrest]
        rfl
      · rw [← List.cons_append, replaceCrLf_append h]
        rfl

/-- Lines put together again. -/
def joinLines (lines : List JsString) : JsString := [lineFeed].intercalate lines

theorem joinLines_splitOn (text : JsString) : joinLines (text.splitOn lineFeed) = text :=
  List.intercalate_splitOn _

theorem lineFeed_not_mem_fence : lineFeed ∉ fence := by decide

/-- The text up to a line, and the lines behind it. -/
theorem splitOn_append_line (a b : JsString) :
    (a ++ lineFeed :: b).splitOn lineFeed = a.splitOn lineFeed ++ b.splitOn lineFeed :=
  List.splitOn_append_cons_self _ _

theorem joinLines_cons {line : JsString} {lines : List JsString} (hne : lines ≠ []) :
    joinLines (line :: lines) = line ++ lineFeed :: joinLines lines := by
  cases lines with
  | nil => exact absurd rfl hne
  | cons next lines => simp [joinLines, List.intercalate]

theorem joinLines_append : ∀ {before after : List JsString}, before ≠ [] → after ≠ [] →
    joinLines (before ++ after) = joinLines before ++ lineFeed :: joinLines after
  | [], _, hne, _ => absurd rfl hne
  | [line], after, _, hafter => by
      rw [List.singleton_append, joinLines_cons hafter]
      simp [joinLines, List.intercalate]
  | line :: next :: before, after, _, hafter => by
      have hne : next :: before ≠ [] := List.cons_ne_nil _ _
      rw [List.cons_append, joinLines_cons (by simp), joinLines_append hne hafter,
        joinLines_cons hne, List.append_assoc, List.cons_append]

theorem length_joinLines_le {before after : List JsString} (hne : before ≠ []) :
    (joinLines before).length ≤ (joinLines (before ++ after)).length := by
  cases after with
  | nil => rw [List.append_nil]
  | cons line after =>
      rw [joinLines_append hne (List.cons_ne_nil _ _), List.length_append]
      omega

/-! ## The closing fence -/

/-- What `extractSkillFrontmatter` looks for. -/
def closingFence : JsString := lineFeed :: fence ++ [lineFeed]

theorem occursAt_closingFence {body : JsString} {i : Nat} : OccursAt body closingFence i ↔
    ∃ before behind, body = before ++ lineFeed :: (fence ++ lineFeed :: behind) ∧
      before.length = i := by
  constructor
  · rintro ⟨behind, h⟩
    refine ⟨body.take i, behind, ?_, ?_⟩
    · conv_lhs => rw [← List.take_append_drop i body, ← h]
      simp [closingFence]
    · have hlength := congrArg List.length h
      simp only [closingFence, List.length_append, List.length_cons, List.length_drop] at hlength
      rw [List.length_take]
      omega
  · rintro ⟨before, behind, rfl, rfl⟩
    refine ⟨behind, ?_⟩
    rw [List.drop_left]
    simp [closingFence]

theorem lines_of_closingFence (before behind : JsString) :
    (before ++ lineFeed :: (fence ++ lineFeed :: behind)).splitOn lineFeed =
      before.splitOn lineFeed ++ fence :: behind.splitOn lineFeed := by
  rw [splitOn_append_line, splitOn_append_line,
    List.splitOn_eq_singleton lineFeed_not_mem_fence]
  rfl

/-- The fence is looked for from the second line of the body on. -/
theorem indexOf_closed {body : JsString} {first : JsString} {rest more : List JsString}
    (hlines : body.splitOn lineFeed = first :: rest ++ fence :: more) (hmore : more ≠ [])
    (hrest : fence ∉ rest) :
    indexOf body closingFence 0 = some (joinLines (first :: rest)).length := by
  have hbody : body = joinLines (first :: rest) ++ lineFeed :: (fence ++ lineFeed ::
      joinLines more) := by
    rw [← joinLines_cons hmore, ← joinLines_append (List.cons_ne_nil _ _) (List.cons_ne_nil _ _),
      ← hlines, joinLines_splitOn]
  have hoccurs : OccursAt body closingFence (joinLines (first :: rest)).length :=
    occursAt_closingFence.mpr ⟨_, _, hbody, rfl⟩
  have hleast : ∀ i, OccursAt body closingFence i → (joinLines (first :: rest)).length ≤ i := by
    intro i hi
    obtain ⟨before, behind, heq, rfl⟩ := occursAt_closingFence.mp hi
    have hsplit := lines_of_closingFence before behind
    rw [← heq, hlines] at hsplit
    have hne : before.splitOn lineFeed ≠ [] := List.splitOn_ne_nil _ _
    obtain ⟨middle, hfirst, -⟩ | ⟨middle, hbefore, hmiddle⟩ := List.append_eq_append_iff.mp hsplit
    · rw [← joinLines_splitOn before, hfirst]
      exact length_joinLines_le (List.cons_ne_nil _ _)
    · cases middle with
      | nil =>
          rw [List.append_nil] at hbefore
          rw [hbefore, joinLines_splitOn]
      | cons line middle =>
          obtain ⟨rfl, -⟩ := List.cons.inj hmiddle
          obtain ⟨line, lines, hlines⟩ := List.exists_cons_of_ne_nil hne
          rw [hlines] at hbefore
          obtain ⟨-, rfl⟩ := List.cons.inj hbefore
          exact absurd (List.mem_append_right _ List.mem_cons_self) hrest
  cases hfound : indexOf body closingFence 0 with
  | none => exact absurd hoccurs (indexOf_eq_none hfound (Nat.zero_le _))
  | some found =>
      obtain ⟨-, hhere, hfirst⟩ := indexOf_eq_some hfound
      have hle := hleast found hhere
      have hge : found ≤ (joinLines (first :: rest)).length :=
        Nat.le_of_not_lt fun hlt => hfirst _ (Nat.zero_le _) hlt hoccurs
      rw [Nat.le_antisymm hge hle]

/-- A fence that ends the text is not found. -/
theorem indexOf_open {body : JsString} {front : List JsString} {last : JsString}
    (hlines : body.splitOn lineFeed = front ++ [last]) (hfront : fence ∉ front) :
    indexOf body closingFence 0 = none := by
  cases hfound : indexOf body closingFence 0 with
  | none => rfl
  | some found =>
      obtain ⟨-, hoccurs, -⟩ := indexOf_eq_some hfound
      obtain ⟨before, behind, heq, rfl⟩ := occursAt_closingFence.mp hoccurs
      have hsplit := lines_of_closingFence before behind
      have hne : behind.splitOn lineFeed ≠ [] := List.splitOn_ne_nil _ _
      rw [← heq, hlines] at hsplit
      have hdrop := congrArg List.dropLast hsplit
      rw [List.dropLast_concat, List.dropLast_append_of_ne_nil (List.cons_ne_nil _ _),
        List.dropLast_cons_of_ne_nil hne] at hdrop
      refine absurd ?_ hfront
      rw [hdrop]
      exact List.mem_append_right _ List.mem_cons_self

/-! ## Cutting out -/

variable {source path : JsString}

/-- Behind the first fence. -/
theorem extract_body {body : JsString} (hbody : replaceCrLf source = fence ++ lineFeed :: body) :
    extractSkillFrontmatter source path =
      match indexOf body closingFence 0 with
      | none =>
          thrown .skillFrontmatterTooLarge path
            (js "SKILL.md frontmatter must close within " ++ decimal maxSkillFrontmatterBytes ++
              js " bytes")
      | some closing => .ok (body.take closing) := by
  have hstarts : (fence ++ [lineFeed]).isPrefixOf (fence ++ lineFeed :: body) = true :=
    List.isPrefixOf_iff_prefix.mpr ⟨body, by simp⟩
  have hdrop : (fence ++ lineFeed :: body).drop 4 = body := rfl
  have hindex : indexOf (fence ++ lineFeed :: body) closingFence 4 =
      (indexOf body closingFence 0).map (4 + ·) := by
    rw [indexOf, hdrop]
    exact indexFrom_add closingFence 4 body 0
  rw [extractSkillFrontmatter, hbody]
  simp only [hstarts, Bool.not_true, Bool.false_eq_true, if_false]
  rw [← closingFence, hindex]
  cases indexOf body closingFence 0 with
  | none => rfl
  | some closing =>
      simp only [Option.map_some]
      rw [List.drop_take]
      simp [hdrop]

theorem getLast?_replaceCrLf : ∀ text : JsString, (replaceCrLf text).getLast? = text.getLast?
  | [] => rfl
  | [_] => rfl
  | u :: v :: rest => by
      rw [replaceCrLf, List.getLast?_cons_cons]
      split
      · rename_i hcrlf
        rw [List.getLast?_cons, List.getLast?_cons, getLast?_replaceCrLf rest, hcrlf.2]
      · rw [List.getLast?_cons, getLast?_replaceCrLf (v :: rest), List.getLast?_cons]
        rfl

/-- The body behind a first line that is followed by others. -/
theorem body_of_lines {later : List JsString} (hne : later ≠ [])
    (h : linesOf source = fence :: later) :
    replaceCrLf source = fence ++ lineFeed :: joinLines later ∧
      (joinLines later).splitOn lineFeed = later := by
  have hjoined : replaceCrLf source = fence ++ lineFeed :: joinLines later := by
    rw [← joinLines_cons hne, ← h, linesOf, joinLines_splitOn]
  refine ⟨hjoined, ?_⟩
  rw [linesOf, hjoined, splitOn_append_line, List.splitOn_eq_singleton lineFeed_not_mem_fence] at h
  exact (List.cons.inj h).2

/-- A text that ends with its closing fence: its lines, and the first fence
behind the opening one is the last line. -/
structure Fenced (text : JsString) (front : List JsString) : Prop where
  lines : linesOf text = fence :: (front ++ [fence])
  first : fence ∉ front

section
variable {text : JsString} {front : List JsString} (h : Fenced text front)
include h

theorem Fenced.body : ∃ body, replaceCrLf text = fence ++ lineFeed :: body ∧
    body.splitOn lineFeed = front ++ [fence] :=
  ⟨_, body_of_lines (by simp) h.lines⟩

theorem Fenced.noReturn : text.getLast? ≠ some carriageReturn := by
  obtain ⟨body, hbody, hlines⟩ := h.body
  rw [← getLast?_replaceCrLf, hbody]
  have hjoined : body = joinLines (front ++ [fence]) := by rw [← hlines, joinLines_splitOn]
  have hends : body.getLast? = fence.getLast? := by
    cases front with
    | nil =>
        rw [hjoined]
        rfl
    | cons line front =>
        rw [hjoined, joinLines_append (List.cons_ne_nil _ _) (List.cons_ne_nil _ _),
          List.getLast?_append_of_ne_nil _ (List.cons_ne_nil _ _)]
        rfl
  have hne : body ≠ [] := by
    rintro rfl
    cases hends
  rw [List.getLast?_append_of_ne_nil _ (List.cons_ne_nil _ _), List.getLast?_cons_of_ne_nil hne,
    hends]
  decide

/-- A file that ends at the closing fence has no frontmatter. -/
theorem Fenced.extract_open : extractSkillFrontmatter text path =
    thrown .skillFrontmatterTooLarge path
      (js "SKILL.md frontmatter must close within " ++ decimal maxSkillFrontmatterBytes ++
        js " bytes") := by
  obtain ⟨body, hbody, hlines⟩ := h.body
  rw [extract_body hbody, indexOf_open hlines h.first]

/-- Behind a line feed the frontmatter is what stands between the fences,
unless that is nothing. -/
theorem Fenced.extract_closed (hfront : front ≠ []) {rest behind : JsString}
    (hrest : replaceCrLf rest = lineFeed :: behind) :
    extractSkillFrontmatter (text ++ rest) path = .ok (joinLines front) := by
  obtain ⟨body, hbody, hlines⟩ := h.body
  obtain ⟨first, others, rfl⟩ := List.exists_cons_of_ne_nil hfront
  have hwhole : replaceCrLf (text ++ rest) = fence ++ lineFeed :: (body ++ lineFeed :: behind) := by
    rw [replaceCrLf_append fun hmeet => h.noReturn hmeet.1, hbody, hrest]
    simp
  have hsplit : (body ++ lineFeed :: behind).splitOn lineFeed =
      first :: others ++ fence :: behind.splitOn lineFeed := by
    rw [splitOn_append_line, hlines]
    simp
  have hbehind : behind.splitOn lineFeed ≠ [] := List.splitOn_ne_nil _ _
  have hbodyText : body = joinLines (first :: others) ++ lineFeed :: fence := by
    rw [← joinLines_splitOn body, hlines, joinLines_append (List.cons_ne_nil _ _)
      (List.cons_ne_nil _ _)]
    rfl
  rw [extract_body hwhole, indexOf_closed hsplit hbehind
    fun hmem => h.first (List.mem_cons_of_mem _ hmem)]
  simp [hbodyText]

end

/-! ## The bytes that are read -/

def bytesOf (chars : List Char) : Bytes := chars.flatMap String.utf8EncodeChar

/-- The bytes that are decoded. -/
def window (bytes : Bytes) : Bytes := bytes.take (maxSkillFrontmatterBytes + 1)

/-- The window ends inside of a character. -/
def Torn (bytes : Bytes) : Prop := decodeChars? (window bytes) = none

/-- The line feed at the beginning of a text. -/
def terminator : List Char → List Char
  | '\n' :: _ => ['\n']
  | '\r' :: '\n' :: _ => ['\r', '\n']
  | _ => []

/-- A file is a header, up to its closing fence, and a rest; the line of the
fence ends in time. -/
structure SkillFile (head rest : List Char) (front : List JsString) : Prop where
  header : Fenced ((withoutMark head).flatMap units) front
  ends : rest = [] ∨ terminator rest ≠ []
  within : (bytesOf (head ++ terminator rest)).length ≤ maxSkillFrontmatterBytes
  noNul : (0 : UInt8) ∉ bytesOf (head ++ rest)

theorem terminator_append (rest : List Char) : ∃ more, rest = terminator rest ++ more := by
  unfold terminator
  split
  · exact ⟨_, rfl⟩
  · exact ⟨_, rfl⟩
  · exact ⟨rest, rfl⟩

theorem replaceCrLf_terminator {rest : List Char} (h : terminator rest ≠ []) (more : List Char) :
    ∃ behind, replaceCrLf ((terminator rest ++ more).flatMap units) = lineFeed :: behind := by
  unfold terminator at h ⊢
  split
  · change ∃ behind, replaceCrLf (lineFeed :: more.flatMap units) = _
    cases more.flatMap units with
    | nil => exact ⟨[], rfl⟩
    | cons u us =>
        have hnot : ¬ (lineFeed = carriageReturn ∧ u = lineFeed) := fun h => absurd h.1 (by decide)
        exact ⟨_, by rw [replaceCrLf, if_neg hnot]⟩
  · change ∃ behind, replaceCrLf (carriageReturn :: lineFeed :: more.flatMap units) = _
    exact ⟨_, by rw [replaceCrLf, if_pos ⟨rfl, rfl⟩]⟩
  · rename_i hone htwo
    split at h
    · exact absurd rfl (hone _)
    · exact absurd rfl (htwo _)
    · exact absurd rfl h

theorem withoutMark_append {head : List Char} (hhead : head ≠ []) (more : List Char) :
    withoutMark (head ++ more) = withoutMark head ++ more := by
  obtain ⟨c, head, rfl⟩ := List.exists_cons_of_ne_nil hhead
  unfold withoutMark
  by_cases hmark : c = byteOrderMark <;> simp [hmark]

section
variable {head rest : List Char} {front : List JsString} (h : SkillFile head rest front)
include h

theorem SkillFile.head_ne_nil : head ≠ [] := by
  rintro rfl
  have hlines := congrArg List.length h.header.lines
  simp [withoutMark, linesOf, replaceCrLf] at hlines

/-- A window that is not torn has the header, the end of its line, and a part
of what follows. -/
theorem SkillFile.window_chars {chars : List Char}
    (hchars : decodeChars? (window (bytesOf (head ++ rest))) = some chars) :
    ∃ more, chars = head ++ (terminator rest ++ more) ∧ (rest = [] → more = []) := by
  obtain ⟨behind, hbehind⟩ := terminator_append rest
  have hbytes : bytesOf (head ++ rest) = bytesOf (head ++ terminator rest) ++ bytesOf behind := by
    conv_lhs => rw [hbehind]
    simp [bytesOf]
  have hwindow := (decodeChars?_eq_some_iff _ _).mp hchars
  have hlength := h.within
  rw [window, hbytes, List.take_append, List.take_of_length_le (by omega)] at hwindow
  obtain ⟨more, hmore, hrest⟩ := utf8.encode_prefix (head ++ terminator rest) chars _ hwindow.symm
  refine ⟨more, by rw [hmore, List.append_assoc], ?_⟩
  rintro rfl
  have hnil : behind = [] := (List.append_eq_nil_iff.mp hbehind.symm).2
  rw [hnil] at hrest
  exact (utf8.encode_eq_nil_iff more).mp (by simpa [bytesOf] using hrest.symm)

theorem SkillFile.decode : decodeInstructionText (window (bytesOf (head ++ rest))) path =
    match decodeChars? (window (bytesOf (head ++ rest))) with
    | some chars => .ok ((withoutMark chars).flatMap units)
    | none =>
        thrown .instructionBinaryUnsupported path
          (js "instruction file is not valid UTF-8 text: " ++ path) := by
  have hnul : (0 : UInt8) ∉ window (bytesOf (head ++ rest)) := fun hmem =>
    h.noNul (List.mem_of_mem_take hmem)
  rw [decodeInstructionText, if_neg hnul, decodeUtf8Fatal]
  cases decodeChars? (window (bytesOf (head ++ rest))) <;> rfl

end

/-! ## One header, two files -/

/-- What is taken for the frontmatter behind an empty one: whatever stands
before the next fence of the window. -/
def laterFrontmatter (bytes : Bytes) : Option JsString :=
  (decodeUtf8Fatal (window bytes)).bind fun source =>
    let body := (replaceCrLf source).drop 4
    (indexOf body closingFence 0).map body.take

/-- What the outcome depends on: nothing for a torn window, or the frontmatter
that is cut out, if there is one. -/
inductive Cut where
  | torn
  | unclosed
  | closed (frontmatter : JsString)

/-- The outcome for what is cut out. -/
def Cut.outcome (sha256 : Bytes → JsString) (parseDocument : JsString → YamlDocument)
    (skillFile parentDirectoryName : JsString) : Cut → Except Thrown ParsedSkillMetadata
  | .torn =>
      thrown .instructionBinaryUnsupported skillFile
        (js "instruction file is not valid UTF-8 text: " ++ skillFile)
  | .unclosed =>
      thrown .skillFrontmatterTooLarge skillFile
        (js "SKILL.md frontmatter must close within " ++ decimal maxSkillFrontmatterBytes ++
          js " bytes")
  | .closed frontmatter =>
      checkFrontmatter sha256 parseDocument frontmatter skillFile parentDirectoryName

/-- What is cut out of a file. -/
def cutOf (rest : List Char) (front : List JsString) (bytes : Bytes) : Cut :=
  if (decodeChars? (window bytes)).isNone then .torn
  else if front = [] then (laterFrontmatter bytes).elim .unclosed .closed
  else if rest = [] then .unclosed
  else .closed (joinLines front)

section
variable {sha256 : Bytes → JsString} {skillFile parentDirectoryName : JsString}

theorem parseSkillMetadata_eq {head rest : List Char} {front : List JsString}
    (h : SkillFile head rest front) (parseDocument : JsString → YamlDocument) :
    parseSkillMetadata sha256 parseDocument (window (bytesOf (head ++ rest))) skillFile
        parentDirectoryName =
      (cutOf rest front (bytesOf (head ++ rest))).outcome sha256 parseDocument skillFile
        parentDirectoryName := by
  rw [parseSkillMetadata, h.decode, cutOf]
  cases hchars : decodeChars? (window (bytesOf (head ++ rest))) with
  | none => rfl
  | some chars =>
      obtain ⟨more, rfl, hmore⟩ := h.window_chars hchars
      have hsource : (withoutMark (head ++ (terminator rest ++ more))).flatMap units =
          (withoutMark head).flatMap units ++ (terminator rest ++ more).flatMap units := by
        rw [withoutMark_append h.head_ne_nil, List.flatMap_append]
      dsimp only
      rw [hsource]
      change (extractSkillFrontmatter _ skillFile >>= fun frontmatter =>
        checkFrontmatter sha256 parseDocument frontmatter skillFile parentDirectoryName) = _
      simp only [Option.isNone_some, Bool.false_eq_true, if_false]
      by_cases hfront : front = []
      · rw [if_pos hfront]
        obtain ⟨body, hbody, -⟩ := h.header.body
        have hwhole : replaceCrLf ((withoutMark head).flatMap units ++
            (terminator rest ++ more).flatMap units) = fence ++ lineFeed :: (body ++
              replaceCrLf ((terminator rest ++ more).flatMap units)) := by
          rw [replaceCrLf_append fun hmeet => h.header.noReturn hmeet.1, hbody]
          simp
        have hlater : laterFrontmatter (bytesOf (head ++ rest)) =
            (indexOf (body ++ replaceCrLf ((terminator rest ++ more).flatMap units))
              closingFence 0).map
                (body ++ replaceCrLf ((terminator rest ++ more).flatMap units)).take := by
          rw [laterFrontmatter, decodeUtf8Fatal, hchars, Option.map_some, Option.bind_some, hsource,
            hwhole]
          rfl
        rw [extract_body hwhole, hlater]
        cases indexOf (body ++ replaceCrLf ((terminator rest ++ more).flatMap units))
          closingFence 0 <;> rfl
      · rw [if_neg hfront]
        obtain rfl | hends := h.ends
        · obtain rfl := hmore rfl
          rw [if_pos rfl]
          change (extractSkillFrontmatter ((withoutMark head).flatMap units ++ []) skillFile >>=
            fun frontmatter => checkFrontmatter sha256 parseDocument frontmatter skillFile
              parentDirectoryName) = _
          rw [List.append_nil, h.header.extract_open]
          rfl
        · have hrest : rest ≠ [] := by
            rintro rfl
            exact hends rfl
          obtain ⟨behind, hbehind⟩ := replaceCrLf_terminator hends more
          rw [if_neg hrest, h.header.extract_closed hfront hbehind]
          rfl

/-- Parsers tell apart what is cut out. -/
theorem Cut.outcome_injective {cut cut' : Cut} (h : ∀ parseDocument,
    cut.outcome sha256 parseDocument skillFile parentDirectoryName =
      cut'.outcome sha256 parseDocument skillFile parentDirectoryName) : cut = cut' := by
  have hparser := h fun text => ⟨[text], .error (JsError.error [])⟩
  cases cut with
  | torn =>
      cases cut' with
      | torn => rfl
      | unclosed => cases hparser
      | closed frontmatter => cases hparser
  | unclosed =>
      cases cut' with
      | torn => cases hparser
      | unclosed => rfl
      | closed frontmatter => cases hparser
  | closed frontmatter =>
      cases cut' with
      | torn => cases hparser
      | unclosed => cases hparser
      | closed frontmatter' =>
          have hmessage : js "invalid SKILL.md YAML frontmatter: " ++ frontmatter =
              js "invalid SKILL.md YAML frontmatter: " ++ frontmatter' :=
            congrArg InstructionsError.message (Thrown.instructions.inj (Except.error.inj hparser))
          rw [List.append_cancel_left hmessage]

end

/-- Neither a torn window nor the place behind the closing fence makes a
difference between two files with this frontmatter. -/
def SameCut (front : List JsString) (rest rest' : List Char) (bytes bytes' : Bytes) : Prop :=
  (Torn bytes ↔ Torn bytes') ∧
    (¬ Torn bytes →
      if front = [] then laterFrontmatter bytes = laterFrontmatter bytes'
      else rest = [] ↔ rest' = [])

theorem cutOf_eq_iff {front : List JsString} {rest rest' : List Char} {bytes bytes' : Bytes} :
    cutOf rest front bytes = cutOf rest' front bytes' ↔
      SameCut front rest rest' bytes bytes' := by
  have helim : ∀ later later' : Option JsString,
      later.elim Cut.unclosed Cut.closed = later'.elim Cut.unclosed Cut.closed ↔
        later = later' := by
    intro later later'
    cases later <;> cases later' <;> simp
  have hlater : ∀ later : Option JsString, later.elim Cut.unclosed Cut.closed ≠ Cut.torn := by
    intro later
    cases later <;> simp
  unfold SameCut Torn cutOf
  cases decodeChars? (window bytes) with
  | none => cases decodeChars? (window bytes') with
    | none => simp
    | some chars =>
        simp only [Option.isNone_none, if_true, Option.isNone_some, Bool.false_eq_true, if_false,
          reduceCtorEq, iff_false, not_true_eq_false, false_and]
        split
        · exact (hlater _).symm
        · split <;> simp
  | some chars => cases decodeChars? (window bytes') with
    | none =>
        simp only [Option.isNone_none, if_true, Option.isNone_some, Bool.false_eq_true, if_false,
          reduceCtorEq, false_iff, not_true_eq_false, false_and, iff_false]
        split
        · exact hlater _
        · split <;> simp
    | some chars' =>
        simp only [Option.isNone_some, Bool.false_eq_true, if_false, reduceCtorEq, not_false_eq_true,
          true_and, forall_const]
        split
        · exact helim _ _
        · by_cases hrest : rest = [] <;> by_cases hrest' : rest' = [] <;> simp [hrest, hrest']

/-! ## Reading -/

/-- The file can be read, and has these bytes. -/
structure Readable (host : Host) (p : JsString) (handle : Handle) (bytes : Bytes) : Prop where
  opens : perform (.openRead p) host.vol = (.ok handle, host.vol)
  has : handle.bytes "read" = .ok bytes
  permitsOpen : host.denied (.os (.openRead p)) = none
  permitsRead : ∀ position length, host.denied (.os (.read handle position length)) = none
  permitsClose : host.denied (.os (.close handle)) = none

theorem value_readSkillMetadata {host : Host} {skillFile parentDirectoryName : JsString}
    {handle : Handle} {bytes : Bytes} (h : Readable host skillFile handle bytes)
    (sha256 : Bytes → JsString) (parseDocument : JsString → YamlDocument) (cache : FileCache) :
    value host (readSkillMetadata sha256 parseDocument skillFile parentDirectoryName) cache =
      (parseSkillMetadata sha256 parseDocument (window bytes) skillFile parentDirectoryName,
        cache) := by
  have hread : perform (.read handle 0 (maxSkillFrontmatterBytes + 1)) host.vol =
      (.ok (window bytes), host.vol) := by
    simp only [perform, h.has]
    rfl
  have hclose : perform (.close handle) host.vol = (.ok ⟨⟩, host.vol) := rfl
  rw [readSkillMetadata, value_bind_ok (value_os_ok h.permitsOpen h.opens)]
  refine value_tryFinally_ok ?_ (value_os_ok h.permitsClose hclose)
  rw [value_bind_ok (value_os_ok (h.permitsRead _ _) hread)]
  rfl

/-- Two files with one header get one outcome, whatever the parser is, exactly
when their windows and what follows the header make no difference. -/
theorem metadata_of_header {head rest rest' : List Char} {front : List JsString}
    (hfile : SkillFile head rest front) (hfile' : SkillFile head rest' front)
    {host host' : Host} {skillFile parentDirectoryName : JsString} {handle handle' : Handle}
    (hreadable : Readable host skillFile handle (bytesOf (head ++ rest)))
    (hreadable' : Readable host' skillFile handle' (bytesOf (head ++ rest')))
    (sha256 : Bytes → JsString) (cache cache' : FileCache) :
    (∀ parseDocument,
      (value host (readSkillMetadata sha256 parseDocument skillFile parentDirectoryName) cache).1 =
        (value host' (readSkillMetadata sha256 parseDocument skillFile parentDirectoryName)
          cache').1) ↔
      SameCut front rest rest' (bytesOf (head ++ rest)) (bytesOf (head ++ rest')) := by
  simp only [value_readSkillMetadata hreadable, value_readSkillMetadata hreadable',
    parseSkillMetadata_eq hfile, parseSkillMetadata_eq hfile']
  rw [← cutOf_eq_iff]
  exact ⟨fun h => Cut.outcome_injective h, fun h parseDocument => by rw [h]⟩

/-! ### One skill -/

/-- A header with a name and a description. -/
def plainHeader : List Char := "---\nname: a\ndescription: b\n---".toList

def plainFront : List JsString := [js "name: a", js "description: b"]

/-- The parser, on the frontmatter of this header. -/
def plainYaml (text : JsString) : YamlDocument :=
  if text = joinLines plainFront then
    ⟨[], .ok (Graph.ofTree (.object (.prop (js "name") (.string (js "a"))
      (.prop (js "description") (.string (js "b")) .noProps))))⟩
  else ⟨[js "another text"], .error (JsError.error [])⟩

/-- A host with this one file at `/SKILL.md`. -/
def skillHost (rest : List Char) : Host where
  vol := ⟨⟨[(["SKILL.md".toList], .file (bytesOf (plainHeader ++ rest)) 0o644)],
    List.nodup_singleton _⟩, 0o022⟩
  stamp _ _ := (0, 0, 0, 0)
  denied _ := none

def skillHandle (rest : List Char) : Handle :=
  ⟨["SKILL.md".toList], .file (bytesOf (plainHeader ++ rest)) 0o644⟩

theorem readable_skillHost (rest : List Char) :
    Readable (skillHost rest) (js "/SKILL.md") (skillHandle rest) (bytesOf (plainHeader ++ rest)) :=
  ⟨rfl, rfl, rfl, fun _ _ => rfl, rfl⟩

theorem zero_not_mem_bytesOf {chars : List Char} (h : '\x00' ∉ chars) : (0 : UInt8) ∉ bytesOf chars := by
  intro hmem
  obtain ⟨c, hc, hzero⟩ := List.mem_flatMap.mp hmem
  have hnat := toNat_of_mem_utf8EncodeChar (by decide) hzero
  have hnul : c = '\x00' := Char.toNat_inj.mp hnat
  exact h (hnul ▸ hc)

theorem fenced_plain : Fenced ((withoutMark plainHeader).flatMap units) plainFront :=
  ⟨by decide +kernel, by decide⟩

/-- A body that starts on a line of its own. -/
theorem skillFile_plain {body : List Char} (h : '\x00' ∉ body) :
    SkillFile plainHeader ('\n' :: body) plainFront where
  header := fenced_plain
  ends := .inr (List.cons_ne_nil _ _)
  within := by
    change (bytesOf (plainHeader ++ ['\n'])).length ≤ _
    decide +kernel
  noNul := by
    refine zero_not_mem_bytesOf ?_
    rw [List.mem_append, List.mem_cons]
    exact not_or.mpr ⟨by decide, not_or.mpr ⟨by decide, h⟩⟩

/-- Two bodies behind one header: two files with the same metadata. -/
theorem metadata_of_header_plain :
    bytesOf (plainHeader ++ ['\n']) ≠ bytesOf (plainHeader ++ ['\n', 'b']) ∧
    ∀ parseDocument,
      (value (skillHost ['\n']) (readSkillMetadata (fun _ => []) parseDocument (js "/SKILL.md")
        (js "a")) .empty).1 =
      (value (skillHost ['\n', 'b']) (readSkillMetadata (fun _ => []) parseDocument (js "/SKILL.md")
        (js "a")) .empty).1 := by
  have hcut : SameCut plainFront ['\n'] ['\n', 'b'] (bytesOf (plainHeader ++ ['\n']))
      (bytesOf (plainHeader ++ ['\n', 'b'])) := by
    rw [← cutOf_eq_iff]
    unfold cutOf
    rw [if_neg (by decide +kernel), if_neg (by decide), if_neg (by decide),
      if_neg (by decide +kernel), if_neg (by decide), if_neg (by decide)]
  exact ⟨by decide +kernel,
    (metadata_of_header (skillFile_plain (by decide)) (skillFile_plain (by decide))
      (readable_skillHost _) (readable_skillHost _) _ _ _).mpr hcut⟩

/-- A character of several bytes that begins with the last byte of the window. -/
theorem torn_of_last {chars more : List Char} {c : Char} {first second : UInt8} {bytes : Bytes}
    (hc : String.utf8EncodeChar c = first :: second :: bytes)
    (hlength : (bytesOf chars).length = maxSkillFrontmatterBytes) :
    Torn (bytesOf (chars ++ c :: more)) := by
  have hbytes : bytesOf (chars ++ c :: more) =
      bytesOf chars ++ first :: (second :: bytes ++ bytesOf more) := by
    simp [bytesOf, hc]
  have hwindow : window (bytesOf (chars ++ c :: more)) = bytesOf chars ++ [first] := by
    rw [window, hbytes, ← hlength, List.take_append, List.take_of_length_le (by omega)]
    simp
  unfold Torn
  rw [hwindow, Option.eq_none_iff_forall_ne_some]
  intro decoded hdecoded
  have hsplit := (decodeChars?_eq_some_iff _ _).mp hdecoded
  obtain ⟨last, -, hlast⟩ := utf8.encode_prefix chars decoded [first] hsplit.symm
  cases last with
  | nil => cases hlast
  | cons d last =>
      have hne : String.utf8EncodeChar d ≠ [] := utf8.word_ne_nil d
      have hd : String.utf8EncodeChar d = [first] := by
        have hcons : [first] = String.utf8EncodeChar d ++ utf8.encode last := hlast
        obtain ⟨b, bs, hb⟩ := List.exists_cons_of_ne_nil hne
        rw [hb, List.cons_append] at hcons
        obtain ⟨rfl, hnil⟩ := List.cons.inj hcons
        rw [hb, (List.append_eq_nil_iff.mp hnil.symm).1]
      have hstarts : utf8.encode [c] = utf8.encode [d] ++ (second :: bytes) := by
        rw [utf8_encode, utf8_encode]
        simp [hc, hd]
      obtain ⟨behind, hbehind, hrest⟩ := utf8.encode_prefix [d] [c] (second :: bytes) hstarts
      have hnil : behind = [] := (List.cons.inj hbehind).2.symm
      rw [hnil] at hrest
      cases hrest

/-- A body whose last character lies across the end of the window. -/
def wideBody (n : Nat) : List Char := List.replicate n 'x' ++ ['é']

theorem torn_wideBody {n : Nat} (hn : n = 65505) :
    Torn (bytesOf (plainHeader ++ '\n' :: wideBody n)) := by
  have hhead : (bytesOf (plainHeader ++ ['\n'])).length = 31 := by decide +kernel
  have hx : (String.utf8EncodeChar 'x').length = 1 := by decide
  have hlength : (bytesOf (plainHeader ++ ['\n'] ++ List.replicate n 'x')).length =
      maxSkillFrontmatterBytes := by
    rw [bytesOf, List.flatMap_append, List.length_append, ← bytesOf, hhead, List.length_flatMap,
      List.map_replicate, hx, List.sum_replicate, hn]
    rfl
  have hcut := @torn_of_last _ [] 'é' 0xC3 0xA9 [] (by decide) hlength
  have hbody : plainHeader ++ ['\n'] ++ List.replicate n 'x' ++ ['é'] =
      plainHeader ++ '\n' :: wideBody n := by
    rw [wideBody, List.append_assoc, List.append_assoc, List.singleton_append]
  rwa [hbody] at hcut

theorem nul_not_mem_wideBody (n : Nat) : '\x00' ∉ wideBody n := by
  rw [wideBody, List.mem_append, not_or]
  exact ⟨fun hmem => absurd (List.eq_of_mem_replicate hmem) (by decide), by decide⟩

theorem outcome_plain : ((Cut.closed (joinLines plainFront)).outcome (fun _ => []) plainYaml
    (js "/SKILL.md") (js "a")).isOk = true := by
  decide +kernel

theorem metadata_of_header_wide :
    SkillFile plainHeader ['\n'] plainFront ∧
    SkillFile plainHeader ('\n' :: wideBody 65505) plainFront ∧
    (value (skillHost ['\n']) (readSkillMetadata (fun _ => []) plainYaml (js "/SKILL.md")
      (js "a")) .empty).1 ≠
    (value (skillHost ('\n' :: wideBody 65505)) (readSkillMetadata (fun _ => []) plainYaml
      (js "/SKILL.md") (js "a")) .empty).1 := by
  have hshort : SkillFile plainHeader ['\n'] plainFront := skillFile_plain (by decide)
  have hwide : SkillFile plainHeader ('\n' :: wideBody 65505) plainFront :=
    skillFile_plain (nul_not_mem_wideBody _)
  refine ⟨hshort, hwide, ?_⟩
  rw [value_readSkillMetadata (readable_skillHost _), value_readSkillMetadata (readable_skillHost _),
    parseSkillMetadata_eq hshort, parseSkillMetadata_eq hwide]
  have hcut : cutOf ['\n'] plainFront (bytesOf (plainHeader ++ ['\n'])) =
      .closed (joinLines plainFront) := by
    have hwhole : (decodeChars? (window (bytesOf (plainHeader ++ ['\n'])))).isNone = false := by
      decide +kernel
    rw [cutOf, hwhole]
    rfl
  have hcut' : cutOf ('\n' :: wideBody 65505) plainFront
      (bytesOf (plainHeader ++ '\n' :: wideBody 65505)) = .torn := by
    rw [cutOf, if_pos (Option.isNone_iff_eq_none.mpr (torn_wideBody rfl))]
  rw [hcut, hcut']
  intro heq
  dsimp only at heq
  have hok := outcome_plain
  rw [heq] at hok
  cases hok

end Benchhand.Instructions
