/-
Benchhand.Instructions.FrontmatterTheorems — which texts have a frontmatter.

By its grammar a frontmatter is what stands between a first line `---` and the
next such line. `extractSkillFrontmatter` looks for that line with a line feed
on both sides and one unit too late, so it misses a fence that follows the
first line directly, and one that ends the text. All other texts are taken or
refused as the grammar says (`extract_grammar_iff`), and only the text with its
line feeds normalised counts (`extract_congr`).
-/
import Benchhand.Instructions.SkillMetadataTheorems

namespace Benchhand.Instructions

open Text Posix Process Js

/-! ## The grammar -/

/-- The first line is a fence, and so is a later one. -/
def Closes (source : JsString) : Prop := ∃ later, linesOf source = fence :: later ∧ fence ∈ later

/-- The lines between the first line and the next fence, and those behind it. -/
structure Between (source : JsString) (front behind : List JsString) : Prop where
  lines : linesOf source = fence :: (front ++ fence :: behind)
  first : fence ∉ front

/-- A frontmatter is found exactly where there is one, and it is the right one. -/
structure FollowsGrammar (source path : JsString) : Prop where
  accepts : (extractSkillFrontmatter source path).isOk = true ↔ Closes source
  returns : ∀ frontmatter, extractSkillFrontmatter source path = .ok frontmatter →
    ∃ front behind, Between source front behind ∧ frontmatter = joinLines front

/-- The next fence neither follows the first line directly nor ends the text. -/
def Surrounded (source : JsString) : Prop :=
  ∀ front behind, Between source front behind → front ≠ [] ∧ behind ≠ []

theorem closes_iff {source : JsString} :
    Closes source ↔ ∃ front behind, Between source front behind := by
  constructor
  · rintro ⟨later, hlines, hmem⟩
    obtain ⟨front, behind, rfl, hfirst⟩ := List.eq_append_cons_of_mem hmem
    exact ⟨front, behind, hlines, hfirst⟩
  · rintro ⟨front, behind, h⟩
    exact ⟨_, h.lines, List.mem_append_right _ List.mem_cons_self⟩

/-- There is only one next fence. -/
theorem Between.front_nil {source : JsString} {front behind behind' : List JsString}
    (h : Between source front behind) (h' : Between source [] behind') : front = [] := by
  cases front with
  | nil => rfl
  | cons line front =>
      have hlines := (List.cons.inj (h.lines.symm.trans h'.lines)).2
      obtain ⟨rfl, -⟩ := List.cons.inj hlines
      exact absurd List.mem_cons_self h.first

/-! ## What is found -/

variable {source path : JsString}

/-- Where a frontmatter is found, the first line is a fence, and one with a line
feed on both sides is found behind it. -/
theorem extract_ok {frontmatter : JsString}
    (h : extractSkillFrontmatter source path = .ok frontmatter) :
    ∃ body closing, replaceCrLf source = fence ++ lineFeed :: body ∧
      indexOf body closingFence 0 = some closing ∧ frontmatter = body.take closing := by
  have hstarts : (fence ++ [lineFeed]).isPrefixOf (replaceCrLf source) = true := by
    by_contra hnot
    rw [Bool.not_eq_true] at hnot
    simp only [extractSkillFrontmatter, hnot, Bool.not_false, if_true, thrown, reduceCtorEq] at h
  obtain ⟨body, hbody⟩ := List.isPrefixOf_iff_prefix.mp hstarts
  rw [List.append_assoc, List.singleton_append] at hbody
  rw [extract_body hbody.symm] at h
  cases hfound : indexOf body closingFence 0 with
  | none =>
      rw [hfound] at h
      cases h
  | some closing =>
      rw [hfound] at h
      exact ⟨body, closing, hbody.symm, hfound, (Except.ok.inj h).symm⟩

/-- Nothing is found in a text that is not closed. -/
theorem closes_of_extract (h : (extractSkillFrontmatter source path).isOk = true) :
    Closes source := by
  cases hextract : extractSkillFrontmatter source path with
  | error e =>
      rw [hextract] at h
      cases h
  | ok frontmatter =>
      obtain ⟨body, closing, hbody, hfound, -⟩ := extract_ok hextract
      obtain ⟨before, behind, rfl, -⟩ := occursAt_closingFence.mp (indexOf_eq_some hfound).2.1
      refine ⟨before.splitOn lineFeed ++ fence :: behind.splitOn lineFeed, ?_,
        List.mem_append_right _ List.mem_cons_self⟩
      rw [linesOf, hbody, splitOn_append_line, lines_of_closingFence,
        List.splitOn_eq_singleton lineFeed_not_mem_fence]
      rfl

/-- A fence that ends the text is not found. -/
theorem extract_last {front : List JsString} (h : Between source front []) :
    (extractSkillFrontmatter source path).isOk = false := by
  obtain ⟨hbody, hlines⟩ := body_of_lines (by simp) h.lines
  rw [extract_body hbody, indexOf_open hlines h.first]
  rfl

/-- Right behind the first line the fence is not found, and what is found
instead is not empty. -/
theorem extract_first {behind : List JsString} (h : Between source [] behind)
    {frontmatter : JsString} (hextract : extractSkillFrontmatter source path = .ok frontmatter) :
    frontmatter ≠ [] := by
  obtain ⟨body, closing, hbody, hfound, rfl⟩ := extract_ok hextract
  obtain ⟨hbody', -⟩ := body_of_lines (List.cons_ne_nil _ _) h.lines
  obtain ⟨rest, hrest⟩ : ∃ rest, body = ch '-' :: rest := by
    have heq := List.append_cancel_left (hbody.symm.trans hbody')
    obtain ⟨-, hbehind⟩ := List.cons.inj heq
    rw [hbehind]
    cases behind with
    | nil => exact ⟨_, rfl⟩
    | cons line behind =>
        rw [joinLines_cons (List.cons_ne_nil _ _)]
        exact ⟨_, rfl⟩
  obtain ⟨before, more, hoccurs, rfl⟩ := occursAt_closingFence.mp (indexOf_eq_some hfound).2.1
  cases before with
  | nil =>
      rw [hrest] at hoccurs
      exact absurd (List.cons.inj hoccurs).1 (by decide)
  | cons u before =>
      rw [hrest]
      exact List.cons_ne_nil _ _

/-- Between other lines the next fence is found. -/
theorem extract_between {front behind : List JsString} (h : Between source front behind)
    (hfront : front ≠ []) (hbehind : behind ≠ []) :
    extractSkillFrontmatter source path = .ok (joinLines front) := by
  obtain ⟨first, others, rfl⟩ := List.exists_cons_of_ne_nil hfront
  obtain ⟨hbody, hlines⟩ := body_of_lines (by simp) h.lines
  rw [extract_body hbody, indexOf_closed hlines hbehind fun hmem =>
    h.first (List.mem_cons_of_mem _ hmem)]
  simp only
  rw [joinLines_append (List.cons_ne_nil _ _) (List.cons_ne_nil _ _), List.take_left']
  rfl

/-- A text is taken as the grammar says exactly when its closing fence stands
between other lines. -/
theorem followsGrammar_iff : FollowsGrammar source path ↔ Surrounded source := by
  constructor
  · intro h front behind hbetween
    have hok := h.accepts.mpr (closes_iff.mpr ⟨front, behind, hbetween⟩)
    constructor
    · rintro rfl
      cases hextract : extractSkillFrontmatter source path with
      | error e =>
          rw [hextract] at hok
          cases hok
      | ok frontmatter =>
          obtain ⟨front', behind', hbetween', hjoined⟩ := h.returns frontmatter hextract
          rw [hbetween'.front_nil hbetween] at hjoined
          exact extract_first hbetween hextract hjoined
    · rintro rfl
      rw [extract_last hbetween] at hok
      cases hok
  · intro h
    by_cases hcloses : Closes source
    · obtain ⟨front, behind, hbetween⟩ := closes_iff.mp hcloses
      obtain ⟨hfront, hbehind⟩ := h front behind hbetween
      have hextract := @extract_between source path front behind hbetween hfront hbehind
      refine ⟨⟨fun _ => hcloses, fun _ => by rw [hextract]; rfl⟩, fun frontmatter hok => ?_⟩
      exact ⟨front, behind, hbetween, (Except.ok.inj (hextract.symm.trans hok)).symm⟩
    · have hnot (hok : (extractSkillFrontmatter source path).isOk = true) : False :=
        hcloses (closes_of_extract hok)
      refine ⟨⟨closes_of_extract, fun h => absurd h hcloses⟩, fun frontmatter hok => ?_⟩
      exact (hnot (by rw [hok]; rfl)).elim

/-! ## Line endings -/

/-- Texts that differ only in how their lines end have one frontmatter. -/
theorem extract_congr {source' : JsString} (h : replaceCrLf source = replaceCrLf source') :
    extractSkillFrontmatter source path = extractSkillFrontmatter source' path := by
  rw [extractSkillFrontmatter, extractSkillFrontmatter, h]

/-- Files whose texts differ only in how their lines end have one metadata, its
digest included. -/
theorem parseSkillMetadata_congr {sha256 : Bytes → JsString} {parseDocument : JsString → YamlDocument}
    {bytes bytes' : Bytes} {source source' name : JsString}
    (hbytes : decodeInstructionText bytes path = .ok source)
    (hbytes' : decodeInstructionText bytes' path = .ok source')
    (h : replaceCrLf source = replaceCrLf source') :
    parseSkillMetadata sha256 parseDocument bytes path name =
      parseSkillMetadata sha256 parseDocument bytes' path name := by
  rw [parseSkillMetadata, parseSkillMetadata, hbytes, hbytes']
  change (extractSkillFrontmatter source path >>= _) = (extractSkillFrontmatter source' path >>= _)
  rw [extract_congr h]

/-- The grammar, for every text: it is followed exactly where the closing fence
stands between other lines, and how lines end makes no difference. -/
theorem extract_grammar_iff (source path : JsString) :
    (FollowsGrammar source path ↔ Surrounded source) ∧
    (∀ source', replaceCrLf source = replaceCrLf source' →
      extractSkillFrontmatter source path = extractSkillFrontmatter source' path) ∧
    ∀ (sha256 : Bytes → JsString) (parseDocument : JsString → YamlDocument)
      (bytes bytes' : Bytes) (source' name : JsString),
      decodeInstructionText bytes path = .ok source →
      decodeInstructionText bytes' path = .ok source' →
      replaceCrLf source = replaceCrLf source' →
      parseSkillMetadata sha256 parseDocument bytes path name =
        parseSkillMetadata sha256 parseDocument bytes' path name :=
  ⟨followsGrammar_iff, fun _ h => extract_congr h,
    fun _ _ _ _ _ _ hbytes hbytes' h => parseSkillMetadata_congr hbytes hbytes' h⟩

theorem surrounded_plain : Surrounded (js "---\r\nname: a\r\n---\r\nbody") := by
  intro front behind h
  have hlines : linesOf (js "---\r\nname: a\r\n---\r\nbody") =
      [fence, js "name: a", fence, js "body"] := by decide +kernel
  have hlater := (List.cons.inj (hlines.symm.trans h.lines)).2
  constructor
  · rintro rfl
    exact absurd (List.cons.inj hlater).1 (by decide)
  · rintro rfl
    have hlast := congrArg List.getLast? hlater
    rw [List.getLast?_concat] at hlast
    exact absurd hlast (by decide)

theorem extract_grammar_iff_plain :
    FollowsGrammar (js "---\r\nname: a\r\n---\r\nbody") (js "/SKILL.md") ∧
      extractSkillFrontmatter (js "---\r\nname: a\r\n---\r\nbody") (js "/SKILL.md") =
        extractSkillFrontmatter (js "---\nname: a\n---\nbody") (js "/SKILL.md") :=
  have h := extract_grammar_iff (js "---\r\nname: a\r\n---\r\nbody") (js "/SKILL.md")
  ⟨h.1.mpr surrounded_plain, h.2.1 _ (by decide +kernel)⟩

/-- A closing fence without a final newline is refused, and so is one right
behind the first line. -/
theorem extract_grammar_unclosed :
    ¬ (∀ source path, FollowsGrammar source path) ∧
    Closes (js "---\nname: a\n---") ∧
    (extractSkillFrontmatter (js "---\nname: a\n---") (js "/SKILL.md")).isOk = false ∧
    Closes (js "---\n---\nbody") ∧
    (extractSkillFrontmatter (js "---\n---\nbody") (js "/SKILL.md")).isOk = false := by
  have hlast : Closes (js "---\nname: a\n---") :=
    ⟨[js "name: a", fence], by decide +kernel, by decide⟩
  have hrefused : (extractSkillFrontmatter (js "---\nname: a\n---") (js "/SKILL.md")).isOk =
      false := by decide +kernel
  refine ⟨fun h => ?_, hlast, hrefused, ⟨[fence, js "body"], by decide +kernel, by decide⟩,
    by decide +kernel⟩
  have hok := (h (js "---\nname: a\n---") (js "/SKILL.md")).accepts.mpr hlast
  rw [hrefused] at hok
  cases hok

end Benchhand.Instructions
