/-
Benchhand.Instructions.SkillReadTheorems — reading a listed skill.

A reading discovers the skills anew and looks its id up among them. On a host
where a listing succeeds it finds just the listed ids, the shadowed ones too,
and returns the summary that the listing shows (`readSkill_listed`). The summary
is made from the first bytes of the file and the content is all of them; what
the first bytes say of the frontmatter is true of the content
(`extract_append`).
-/
import Benchhand.Instructions.CatalogueTheorems
import Benchhand.Instructions.FrontmatterTheorems

namespace Benchhand.Instructions

open Text Posix Process Js Store

/-! ## The frontmatter of a longer text -/

/-- An occurrence in the first part of a text is one in the text. -/
theorem occursAt_append {a b needle : JsString} {i : Nat} (h : i + needle.length ≤ a.length) :
    OccursAt (a ++ b) needle i ↔ OccursAt a needle i := by
  unfold OccursAt
  rw [List.drop_append_of_le_length (by omega)]
  constructor
  · intro hoccurs
    exact List.prefix_of_prefix_length_le hoccurs (List.prefix_append _ _)
      (by rw [List.length_drop]; omega)
  · intro hoccurs
    exact hoccurs.trans (List.prefix_append _ _)

/-- The first occurrence does not depend on what stands behind it. -/
theorem indexOf_append {a b c needle : JsString} {found : Nat}
    (h : indexOf (a ++ b) needle 0 = some found) (hwithin : found + needle.length ≤ a.length) :
    indexOf (a ++ c) needle 0 = some found := by
  obtain ⟨-, hoccurs, hleast⟩ := indexOf_eq_some h
  have hgoesOn : ∀ i, i ≤ found → (OccursAt (a ++ b) needle i ↔ OccursAt (a ++ c) needle i) := by
    intro i hi
    rw [occursAt_append (by omega), occursAt_append (by omega)]
  have hoccurs' : OccursAt (a ++ c) needle found := (hgoesOn found (Nat.le_refl _)).mp hoccurs
  cases hfound : indexOf (a ++ c) needle 0 with
  | none => exact absurd hoccurs' (indexOf_eq_none hfound (Nat.zero_le found))
  | some other =>
      obtain ⟨-, hother, hleast'⟩ := indexOf_eq_some hfound
      obtain hlt | heq | hgt := Nat.lt_trichotomy other found
      · have hother' : OccursAt (a ++ b) needle other := (hgoesOn other (Nat.le_of_lt hlt)).mpr hother
        exact absurd hother' (hleast other (Nat.zero_le _) hlt)
      · rw [heq]
      · exact absurd hoccurs' (hleast' found (Nat.zero_le _) hgt)

section
variable {source more path path' frontmatter : JsString}

/-- When a text goes on, its last unit may join with the next one to one end of
a line. -/
theorem replaceCrLf_longer (source more : JsString) : ∃ kept last behind,
    replaceCrLf source = kept ++ last ∧ replaceCrLf (source ++ more) = kept ++ behind ∧
      (last = [] ∨ last = [carriageReturn]) := by
  by_cases hjoin : source.getLast? = some carriageReturn ∧ more.head? = some lineFeed
  · obtain ⟨front, rfl⟩ := List.getLast?_eq_some_iff.mp hjoin.1
    obtain ⟨tail, rfl⟩ := List.head?_eq_some_iff.mp hjoin.2
    refine ⟨replaceCrLf front, [carriageReturn], replaceCrLf (carriageReturn :: lineFeed :: tail),
      ?_, ?_, .inr rfl⟩
    · exact replaceCrLf_append fun h => absurd h.2 (by decide)
    · rw [List.append_assoc]
      exact replaceCrLf_append fun h => absurd (Option.some.inj h.2) (by decide)
  · exact ⟨replaceCrLf source, [], replaceCrLf more, (List.append_nil _).symm,
      replaceCrLf_append hjoin, .inl rfl⟩

/-- What ends with another unit than a return is kept. -/
theorem prefix_kept {closed rest kept last : JsString} (h : closed ++ rest = kept ++ last)
    (hlast : last = [] ∨ last = [carriageReturn]) (hends : closed.getLast? ≠ some carriageReturn) :
    ∃ rest', kept = closed ++ rest' := by
  obtain ⟨tail, htail, -⟩ | ⟨tail, htail, hlast'⟩ := List.append_eq_append_iff.mp h
  · exact ⟨tail, htail⟩
  · cases tail with
    | nil => exact ⟨[], by rw [htail, List.append_nil, List.append_nil]⟩
    | cons u tail =>
        obtain rfl | rfl := hlast
        · cases hlast'
        · obtain ⟨rfl, hnil⟩ := List.cons.inj hlast'
          obtain ⟨rfl, -⟩ := List.append_eq_nil_iff.mp hnil.symm
          refine absurd ?_ hends
          rw [htail, List.getLast?_concat]

/-- A frontmatter that is found in a text is found when the text goes on. -/
theorem extract_append (h : extractSkillFrontmatter source path = .ok frontmatter) :
    extractSkillFrontmatter (source ++ more) path' = .ok frontmatter := by
  obtain ⟨body, closing, hbody, hfound, rfl⟩ := extract_ok h
  obtain ⟨before, rest, rfl, rfl⟩ := occursAt_closingFence.mp (indexOf_eq_some hfound).2.1
  obtain ⟨kept, last, behind, hsource, hlonger, hlast⟩ := replaceCrLf_longer source more
  have hfence : before ++ lineFeed :: (fence ++ lineFeed :: rest) =
      (before ++ closingFence) ++ rest := by
    simp [closingFence]
  rw [hfence] at hbody hfound ⊢
  obtain ⟨rest', hkept⟩ : ∃ rest', kept = (fence ++ lineFeed :: (before ++ closingFence)) ++ rest' := by
    have hwhole : (fence ++ lineFeed :: (before ++ closingFence)) ++ rest = kept ++ last := by
      rw [← hsource, hbody]
      simp
    refine prefix_kept hwhole hlast ?_
    have hends : fence ++ lineFeed :: (before ++ closingFence) =
        (fence ++ lineFeed :: (before ++ lineFeed :: fence)) ++ [lineFeed] := by
      simp [closingFence]
    rw [hends, List.getLast?_concat]
    decide
  have hbody' : replaceCrLf (source ++ more) =
      fence ++ lineFeed :: (before ++ closingFence ++ (rest' ++ behind)) := by
    rw [hlonger, hkept]
    simp
  rw [extract_body hbody', indexOf_append hfound (by simp)]
  simp

/-! ## The text of a file -/

/-- The first bytes are the beginning of the text. -/
theorem decode_window {bytes : Bytes} {source content : JsString}
    (h : decodeInstructionText (window bytes) path = .ok source)
    (h' : decodeInstructionText bytes path' = .ok content) : ∃ more, content = source ++ more := by
  obtain ⟨first, hfirst, rfl⟩ :=
    (decodeUtf8Fatal_eq_some_iff _ _).mp (decodeInstructionText_ok_iff.mp h).2
  obtain ⟨chars, hchars, rfl⟩ :=
    (decodeUtf8Fatal_eq_some_iff _ _).mp (decodeInstructionText_ok_iff.mp h').2
  have hbytes : utf8.encode chars = utf8.encode first ++ bytes.drop (maxSkillFrontmatterBytes + 1) := by
    rw [utf8_encode, utf8_encode, ← hfirst, ← hchars, window, List.take_append_drop]
  obtain ⟨more, rfl, -⟩ := utf8.encode_prefix first chars _ hbytes
  cases first with
  | nil => exact ⟨_, (List.nil_append _).symm⟩
  | cons c first =>
      refine ⟨more.flatMap units, ?_⟩
      rw [withoutMark_append (List.cons_ne_nil c first), List.flatMap_append]

end

/-! ## What metadata say -/

/-- The frontmatter of a text gives these metadata. -/
def Heads (sha256 : Bytes → JsString) (parseDocument : JsString → YamlDocument)
    (content name : JsString) (metadata : ParsedSkillMetadata) : Prop :=
  ∃ path frontmatter, extractSkillFrontmatter content path = .ok frontmatter ∧
    checkFrontmatter sha256 parseDocument frontmatter path name = .ok metadata

/-- The metadata that a summary shows. -/
def SkillSummary.parsed (summary : SkillSummary) : ParsedSkillMetadata where
  name := summary.name
  description := summary.description
  metadataSha256 := summary.metadataSha256
  license := summary.license
  compatibility := summary.compatibility
  metadata := summary.metadata
  allowedTools := summary.allowedTools

section
variable {host : Host} {sha256 : Bytes → JsString} {parseDocument : JsString → YamlDocument}
  {path path' name content : JsString} {metadata : ParsedSkillMetadata} {bytes : Bytes}

/-- Metadata of the first bytes of a file are those of its whole text. -/
theorem heads_of_window
    (h : parseSkillMetadata sha256 parseDocument (window bytes) path name = .ok metadata)
    (h' : decodeInstructionText bytes path' = .ok content) :
    Heads sha256 parseDocument content name metadata := by
  obtain ⟨source, hsource, h⟩ := bind_ok_iff.mp h
  obtain ⟨frontmatter, hextract, hcheck⟩ := bind_ok_iff.mp h
  obtain ⟨more, rfl⟩ := decode_window hsource h'
  exact ⟨path, frontmatter, extract_append hextract, hcheck⟩

theorem uses_readFile : Async.Uses Call.Outside (readFile path) :=
  Async.uses_bind (Async.uses_request trivial) fun _ => Async.uses_request trivial

/-- A file that is read as a whole. -/
theorem outcome_readFile_ok (h : outcome host (readFile path) = .ok bytes) :
    ∃ place mode, host.vol.locate true path = .ok place ∧
      host.vol.node? place = some (.file bytes mode) := by
  have houtside : Call.Outside (.openFile path) := trivial
  obtain ⟨reading, hopen, hread⟩ := (outcome_bind_ok (Async.uses_request houtside)).mp h
  have hlookup := permit_ok hopen
  have hbytes := permit_ok hread
  cases hfound : host.vol.lookup true "open" path with
  | error e =>
      rw [hfound] at hlookup
      cases hlookup
  | ok found =>
      rw [hfound] at hlookup
      obtain rfl := Except.ok.inj hlookup
      unfold Host.bytes at hbytes
      rw [hfound] at hbytes
      obtain ⟨place, node⟩ := found
      obtain ⟨hlocate, hnode⟩ := Volume.lookup_ok.mp hfound
      cases node with
      | file found mode =>
          obtain rfl := Except.ok.inj hbytes
          exact ⟨place, mode, hlocate, hnode⟩
      | directory => cases hbytes
      | symlink target => cases hbytes
      | other => cases hbytes

/-- What is read of a file first is the beginning of what is read of it later. -/
theorem firstBytes_eq_window {handle : Handle} {first : Bytes}
    (hopen : outcome host (os (.openRead path)) = .ok handle)
    (hfirst : firstBytes host handle = .ok first)
    (h : outcome host (readFile path) = .ok bytes) : first = window bytes := by
  obtain ⟨place, mode, hlocate, hnode⟩ := outcome_readFile_ok h
  obtain ⟨-, hlocate', hnode'⟩ := perform_openRead.mp (perform_of_outcome hopen)
  obtain ⟨all, mode', hhandle, rfl⟩ := perform_read (perform_of_outcome hfirst)
  obtain rfl : place = handle.path := Except.ok.inj (hlocate.symm.trans hlocate')
  rw [hhandle, hnode] at hnode'
  obtain ⟨rfl, -⟩ := Node.file.inj (Option.some.inj hnode')
  rw [List.drop_zero, window]

/-! ## Reading -/

/-- The file is read as a text, and it is not too large. -/
structure TextOf (host : Host) (file : JsString) (bytes : Bytes) (content : JsString) : Prop where
  reads : outcome host (readFile file) = .ok bytes
  fits : bytes.length ≤ maxInstructionBytes
  noNul : (0 : UInt8) ∉ bytes
  decodes : decodeUtf8Fatal bytes = some content

theorem readSkillContent_ok_iff {workspaceId : JsString} {skill : DiscoveredSkill}
    {result : SkillsReadResult} :
    readSkillContent sha256 workspaceId skill bytes = .ok result ↔
      bytes.length ≤ maxInstructionBytes ∧ (0 : UInt8) ∉ bytes ∧
      ∃ content, decodeUtf8Fatal bytes = some content ∧
        ⟨workspaceId, skill.summary, content, sha256 bytes⟩ = result := by
  unfold readSkillContent
  dsimp only
  split
  · rename_i hlarge
    refine iff_of_false (fun h => (by cases h)) fun h => ?_
    exact absurd hlarge (Nat.not_lt.mpr h.1)
  · rename_i hfits
    constructor
    · intro h
      cases hdecode : decodeInstructionText bytes skill.summary.skillFilePath with
      | error e =>
          rw [hdecode] at h
          cases h
      | ok content =>
          rw [hdecode] at h
          obtain ⟨hnul, htext⟩ := decodeInstructionText_ok_iff.mp hdecode
          exact ⟨Nat.not_lt.mp hfits, hnul, content, htext, Except.ok.inj h⟩
    · rintro ⟨-, hnul, content, htext, rfl⟩
      rw [decodeInstructionText_ok_iff.mpr ⟨hnul, htext⟩]
      rfl

end

section
variable {host : Host} {service : Service} {workspaceId skillId : JsString}

theorem checkSkillId_ok_iff : checkSkillId skillId = .ok ⟨⟩ ↔ skillId ≠ [] ∧ (0 : UInt16) ∉ skillId := by
  unfold checkSkillId
  split
  · rename_i hbad
    exact iff_of_false (fun h => by cases h) fun h => hbad.elim h.1 h.2
  · rename_i hgood
    exact iff_of_true rfl (not_or.mp hgood)

/-- No unit of a name is zero. -/
theorem zero_not_mem_name {name : JsString} (h : isSkillName name = true) :
    (0 : UInt16) ∉ name := by
  intro hmem
  have hdash : (0 : UInt16) ≠ ch '-' := by decide
  obtain ⟨part, hpart, hmem⟩ := mem_splitOn hdash hmem
  have hunits := List.all_eq_true.mp h part hpart
  simp only [Bool.and_eq_true] at hunits
  have hzero := List.all_eq_true.mp hunits.2 0 hmem
  exact absurd hzero (by decide)

theorem uses_readSkill (service : Service) (request : SkillsReadRequest) :
    Async.Uses Call.Outside (service.readSkill request) := by
  refine Async.uses_bind uses_ofExcept fun _ => Async.uses_bind uses_ofExcept fun workspace =>
    Async.uses_bind (uses_canonicalWorkspaceRoot workspace) fun root =>
      Async.uses_bind (uses_discoverSkills service root) fun discovered => ?_
  cases discovered.skills.find? fun entry => entry.summary.skillId = request.skillId with
  | none => exact Async.uses_throw
  | some skill =>
      exact Async.uses_bind (Async.uses_tryCatch uses_readFile fun _ => Async.uses_throw) fun _ =>
        uses_ofExcept

/-- What is done with the skill that was found. -/
theorem outcome_readFound_iff {found : Option DiscoveredSkill} {result : SkillsReadResult} :
    outcome host (match found with
      | none =>
          fail .skillNotFound skillId (js "skill " ++ skillId ++ js " was not found")
      | some candidate => do
          let buffer ← tryCatch (readFile candidate.skillFilePath) fun _ =>
            fail .skillInaccessible candidate.summary.skillFilePath
              (js "skill " ++ skillId ++ js " is inaccessible")
          ofExcept (readSkillContent service.sha256 workspaceId candidate buffer)) = .ok result ↔
      ∃ skill, found = some skill ∧ ∃ bytes content, TextOf host skill.skillFilePath bytes content ∧
        ⟨workspaceId, skill.summary, content, service.sha256 bytes⟩ = result := by
  cases found with
  | none => exact iff_of_false (fun h => (by cases h)) fun h => (by obtain ⟨_, h, -⟩ := h; cases h)
  | some skill =>
      dsimp only
      have huses : Async.Uses Call.Outside (tryCatch (readFile skill.skillFilePath) fun _ =>
          fail .skillInaccessible skill.summary.skillFilePath
            (js "skill " ++ skillId ++ js " is inaccessible")) :=
        Async.uses_tryCatch uses_readFile fun _ => Async.uses_throw
      rw [outcome_bind_ok huses, outcome_tryCatch uses_readFile]
      constructor
      · rintro ⟨bytes, hreads, h⟩
        obtain ⟨hfits, hnul, content, hdecodes, rfl⟩ := readSkillContent_ok_iff.mp h
        refine ⟨skill, rfl, bytes, content, ⟨?_, hfits, hnul, hdecodes⟩, rfl⟩
        cases hread : outcome host (readFile skill.skillFilePath) with
        | ok found =>
            rw [hread] at hreads
            exact hreads
        | error e =>
            rw [hread] at hreads
            cases hreads
      · rintro ⟨skill', heq, bytes, content, htext, rfl⟩
        obtain rfl := Option.some.inj heq
        refine ⟨bytes, ?_, readSkillContent_ok_iff.mpr
          ⟨htext.fits, htext.noNul, content, htext.decodes, rfl⟩⟩
        rw [htext.reads]

/-- The request finds a skill by its id, and returns the text of its file. -/
theorem outcome_readSkill_iff {result : SkillsReadResult} :
    outcome host (service.readSkill ⟨workspaceId, skillId⟩) = .ok result ↔
      checkSkillId skillId = .ok ⟨⟩ ∧ ∃ root discovered, service.Root host workspaceId root ∧
        outcome host (service.discoverSkills root) = .ok discovered ∧
        ∃ skill, discovered.skills.find? (fun entry => entry.summary.skillId = skillId) =
            some skill ∧
          ∃ bytes content, TextOf host skill.skillFilePath bytes content ∧
            ⟨workspaceId, skill.summary, content, service.sha256 bytes⟩ = result := by
  refine (outcome_bind_ok uses_ofExcept).trans ⟨?_, ?_⟩
  · rintro ⟨⟨⟩, hid, h⟩
    obtain ⟨root, discovered, hroot, hdiscovered, h⟩ := discovers_iff.mp h
    exact ⟨hid, root, discovered, hroot, hdiscovered, outcome_readFound_iff.mp h⟩
  · rintro ⟨hid, root, discovered, hroot, hdiscovered, h⟩
    exact ⟨⟨⟩, hid, discovers_iff.mpr ⟨root, discovered, hroot, hdiscovered,
      outcome_readFound_iff.mpr h⟩⟩

/-- The file of a valid skill has the frontmatter that its summary shows. -/
theorem heads_of_text {root : JsString} {skill : DiscoveredSkill} {bytes : Bytes}
    {content : JsString} (hskill : service.Skill host root skill)
    (htext : TextOf host skill.skillFilePath bytes content) :
    Heads service.sha256 service.parseDocument content skill.summary.name skill.summary.parsed := by
  obtain ⟨descriptor, -, skillRoot, entries, entry, directory, file, metadata, -, -, hvalid, rfl⟩ :=
    hskill
  obtain ⟨handle, first, hopen, hfirst, hparse⟩ := readSkillMetadata_ok hvalid.metadata
  obtain rfl := firstBytes_eq_window hopen hfirst htext.reads
  have hname : (discoveredSkill descriptor directory (join directory skillFileName) file
      metadata).summary.name = entry.name := hvalid.name_eq.1
  rw [hname]
  have hdecode : decodeInstructionText bytes file = .ok content :=
    decodeInstructionText_ok_iff.mpr ⟨htext.noNul, htext.decodes⟩
  exact heads_of_window hparse hdecode

/-- The id of a valid skill passes the checks of a request. -/
theorem checkSkillId_of_skill {root : JsString} {skill : DiscoveredSkill}
    (h : service.Skill host root skill) : checkSkillId skill.summary.skillId = .ok ⟨⟩ := by
  obtain ⟨descriptor, hdescriptor, hin⟩ := h
  have hsource : (0 : UInt16) ∉ descriptor.sourceId := by
    have hmem := List.mem_map_of_mem (f := fun d => (d.precedence, d.sourceId)) hdescriptor
    rw [skillRoots_sources] at hmem
    have hall : ∀ p ∈ [(0, js "project"), (100, js "benchhand-user"), (200, js "agents-user"),
        (300, js "codex-user"), (400, js "devspace-compat")], (0 : UInt16) ∉ p.2 := by decide
    exact hall _ hmem
  have hname : (0 : UInt16) ∉ skill.summary.name := by
    obtain ⟨_, _, _, _, _, _, _, _, hvalid, rfl⟩ := hin
    exact zero_not_mem_name hvalid.name_eq.2
  rw [hin.source.2.2.2, checkSkillId_ok_iff]
  refine ⟨by simp, ?_⟩
  rw [List.mem_append, List.mem_cons, not_or, not_or]
  exact ⟨hsource, by decide, hname⟩

/-! ## Listed skills -/

/-- What a reading of a listed skill returns: the text of its file, whose
frontmatter is what the summary shows. -/
structure ReadSkill (service : Service) (host : Host) (skill : DiscoveredSkill)
    (result : SkillsReadResult) : Prop where
  summary : result.skill = skill.summary
  text : ∃ bytes, TextOf host skill.skillFilePath bytes result.content ∧
    result.sha256 = service.sha256 bytes
  heads : Heads service.sha256 service.parseDocument result.content result.skill.name
    result.skill.parsed

/-- How the ids of a listing are answered. -/
structure Answers (service : Service) (host : Host) (workspaceId : JsString)
    (listed : List DiscoveredSkill) : Prop where
  /-- A listed skill is read whenever its file is. -/
  readable : ∀ skill ∈ listed, ∀ bytes content, TextOf host skill.skillFilePath bytes content →
    ∀ cache, (value host (service.readSkill ⟨workspaceId, skill.summary.skillId⟩) cache).1 =
      .ok ⟨workspaceId, skill.summary, content, service.sha256 bytes⟩
  /-- Nothing else is read. -/
  found : ∀ skillId cache result,
    (value host (service.readSkill ⟨workspaceId, skillId⟩) cache).1 = .ok result →
      result.workspaceId = workspaceId ∧ ∃ skill ∈ listed, skill.summary.skillId = skillId ∧
        ReadSkill service host skill result

/-- A skill is found by its id among skills whose ids are different. -/
theorem find_skill_iff {skills : List DiscoveredSkill}
    (hnodup : (skills.map fun skill => skill.summary.skillId).Nodup) {skill : DiscoveredSkill} :
    skills.find? (fun entry => entry.summary.skillId = skillId) = some skill ↔
      skill ∈ skills ∧ skill.summary.skillId = skillId := by
  constructor
  · intro h
    exact ⟨List.mem_of_find?_eq_some h, by simpa using List.find?_some h⟩
  · rintro ⟨hmem, rfl⟩
    cases hfind : skills.find? fun entry => entry.summary.skillId = skill.summary.skillId with
    | none =>
        have hnot := List.find?_eq_none.mp hfind skill hmem
        simp at hnot
    | some other =>
        have hid : other.summary.skillId = skill.summary.skillId := by
          simpa using List.find?_some hfind
        rw [List.inj_on_of_nodup_map hnodup (List.mem_of_find?_eq_some hfind) hmem hid]

/-- On a host where a listing succeeds, just the listed skills can be read, the
shadowed ones too, each under its own id and with the summary of the listing;
and what the listing shows of a file is what its whole text says. -/
theorem readSkill_listed {listing : SkillsListResult} {cache : FileCache}
    (h : (value host (service.listSkills ⟨workspaceId⟩) cache).1 = .ok listing) :
    ∃ root selected others, Listed service host ⟨workspaceId⟩ listing root selected others ∧
      Answers service host workspaceId (selected ++ others) := by
  rw [value_outside (uses_listSkills service _)] at h
  obtain ⟨root, discovered, hroot, hdiscovered, rfl⟩ := outcome_listSkills_iff.mp h
  obtain ⟨selected, others, hselect, hperm, hcatalogue⟩ := catalogue_of_discovered hdiscovered
  refine ⟨root, selected, others, ⟨rfl, hroot, congrArg Prod.fst hselect,
    congrArg Prod.snd hselect, hcatalogue⟩, ?_⟩
  have hnodup : (discovered.skills.map fun skill => skill.summary.skillId).Nodup :=
    (hperm.map _).nodup_iff.mp hcatalogue.ids
  have hvalid : ∀ skill ∈ selected ++ others, service.Skill host root skill := fun skill hmem =>
    (hcatalogue.complete skill).mp (List.mem_append.mp hmem)
  constructor
  · intro skill hmem bytes content htext cache'
    rw [value_outside (uses_readSkill service _)]
    exact outcome_readSkill_iff.mpr ⟨checkSkillId_of_skill (hvalid skill hmem), root, discovered,
      hroot, hdiscovered, skill, (find_skill_iff hnodup).mpr ⟨hperm.mem_iff.mp hmem, rfl⟩, bytes,
      content, htext, rfl⟩
  · intro skillId cache' result hresult
    rw [value_outside (uses_readSkill service _)] at hresult
    obtain ⟨-, root', discovered', hroot', hdiscovered', skill, hfind, bytes, content, htext, rfl⟩ :=
      outcome_readSkill_iff.mp hresult
    obtain rfl := hroot.unique hroot'
    obtain rfl := Except.ok.inj (hdiscovered.symm.trans hdiscovered')
    obtain ⟨hmem, hid⟩ := (find_skill_iff hnodup).mp hfind
    have hmem' := hperm.mem_iff.mpr hmem
    exact ⟨rfl, skill, hmem', hid, rfl, ⟨bytes, htext, rfl⟩,
      heads_of_text (hvalid skill hmem') htext⟩

end

/-- The shadowed skill of the codex directory can be read. -/
theorem readSkill_listed_two : ∃ listing root selected others,
    (value catalogueHost (catalogueService.listSkills ⟨js "ws"⟩) .empty).1 = .ok listing ∧
      Listed catalogueService catalogueHost ⟨js "ws"⟩ listing root selected others ∧
      Answers catalogueService catalogueHost (js "ws") (selected ++ others) ∧
      ((value catalogueHost (catalogueService.readSkill ⟨js "ws", js "codex-user:a"⟩)
        .empty).1.toOption.map SkillsReadResult.content) =
          some ((plainHeader ++ ['\n']).flatMap units) := by
  obtain ⟨listing, hlisting, -, -⟩ := listSkills_catalogueHost
  obtain ⟨root, selected, others, hlisted, hanswers⟩ := readSkill_listed hlisting
  exact ⟨listing, root, selected, others, hlisting, hlisted, hanswers, by decide +kernel⟩

end Benchhand.Instructions
