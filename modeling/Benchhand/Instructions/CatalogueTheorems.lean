/-
Benchhand.Instructions.CatalogueTheorems — the listing of the skills.

A listing is a catalogue of the valid skills of the five roots: it has each of
them once, selects the first one of each name, and is ordered by precedence and
name (`listSkills_catalogue`). There is one catalogue of a set of skills, so
nothing else in the roots, nor the order of their entries, makes a difference to
it, unless it breaks the discovery (`listSkills_isolated`).
-/
import Benchhand.Instructions.SkillMetadataTheorems
import Benchhand.Instructions.SkillsTheorems

namespace Benchhand.Instructions

open Text Posix Process Js Store
open Filesystem (codePoints_injective)

/-! ## The order of the skills -/

/-- What skills are sorted by. -/
def DiscoveredSkill.key (skill : DiscoveredSkill) : Nat ×ₗ List Nat ×ₗ List Nat :=
  toLex (skill.precedence,
    toLex (codePoints skill.summary.name, codePoints skill.summary.sourceId))

theorem byKey_skills : ByKey DiscoveredSkill.key fun left right =>
    compareDiscoveredSkills left right ≤ 0 := by
  intro left right
  have hzero (s t : JsString) : compareCodePoints s t = 0 ↔ codePoints s = codePoints t :=
    Filesystem.compareCodePoints_eq_zero_iff s t
  have hneg (s t : JsString) : compareCodePoints s t < 0 ↔ codePoints s < codePoints t :=
    Filesystem.compareCodePoints_neg_iff s t
  unfold compareDiscoveredSkills DiscoveredSkill.key
  rw [Prod.Lex.toLex_le_toLex, Prod.Lex.toLex_le_toLex]
  dsimp only
  rw [← hzero, ← hneg, ← Filesystem.compareCodePoints_le_iff]
  split
  · omega
  · split
    · omega
    · rename_i hprecedence hname
      have heq : left.precedence = right.precedence := by omega
      have hname' : Filesystem.compareCodePoints left.summary.name right.summary.name = 0 :=
        not_not.mp hname
      simp [heq, hname', compareCodePoints]

/-- A lower precedence comes first; in one root, names come in their order. -/
def DiscoveredSkill.Before (left right : DiscoveredSkill) : Prop :=
  left.precedence < right.precedence ∨
    left.precedence = right.precedence ∧
      codePoints left.summary.name < codePoints right.summary.name

theorem DiscoveredSkill.Before.irrefl {skill : DiscoveredSkill} (h : skill.Before skill) :
    False := by
  obtain hlt | ⟨-, hlt⟩ := h
  · exact absurd hlt (Nat.lt_irrefl _)
  · exact absurd hlt (lt_irrefl _)

theorem DiscoveredSkill.Before.asymm {left right : DiscoveredSkill} (h : left.Before right) :
    ¬ right.Before left := by
  rintro (hlt | ⟨heq, hlt⟩)
  · obtain hlt' | ⟨heq', -⟩ := h
    · exact absurd hlt (Nat.lt_asymm hlt')
    · exact absurd hlt (by omega)
  · obtain hlt' | ⟨-, hlt'⟩ := h
    · exact absurd hlt' (by omega)
    · exact absurd hlt (lt_asymm hlt')

/-! ## All roots -/

section
variable {host : Host} {service : Service} {workspaceRoot : JsString}

/-- A valid skill of one of the roots of a workspace. -/
def Service.Skill (service : Service) (host : Host) (workspaceRoot : JsString)
    (skill : DiscoveredSkill) : Prop :=
  ∃ descriptor ∈ skillRoots workspaceRoot service.homeDirectory,
    SkillIn host service.sha256 service.parseDocument descriptor skill

theorem skillRoots_sources (homeDirectory : JsString) :
    (skillRoots workspaceRoot homeDirectory).map (fun d => (d.precedence, d.sourceId)) =
      [(0, js "project"), (100, js "benchhand-user"), (200, js "agents-user"),
        (300, js "codex-user"), (400, js "devspace-compat")] := rfl

/-- The roots come in the order of their precedence. -/
theorem skillRoots_increasing (homeDirectory : JsString) :
    (skillRoots workspaceRoot homeDirectory).Pairwise fun d e => d.precedence < e.precedence := by
  have h : ((skillRoots workspaceRoot homeDirectory).map
      fun d => (d.precedence, d.sourceId)).Pairwise fun d e => d.1 < e.1 := by
    rw [skillRoots_sources]
    decide
  rwa [List.pairwise_map] at h

/-- The source ids of the roots tell them apart and have no colon. -/
theorem source_of_skillRoots {homeDirectory : JsString} {d e : SkillRootDescriptor}
    (hd : d ∈ skillRoots workspaceRoot homeDirectory)
    (he : e ∈ skillRoots workspaceRoot homeDirectory) :
    ch ':' ∉ d.sourceId ∧ (d.sourceId = e.sourceId → d.precedence = e.precedence) := by
  have hd' := List.mem_map_of_mem (f := fun d => (d.precedence, d.sourceId)) hd
  have he' := List.mem_map_of_mem (f := fun d => (d.precedence, d.sourceId)) he
  rw [skillRoots_sources] at hd' he'
  have hall : ∀ p ∈ [(0, js "project"), (100, js "benchhand-user"), (200, js "agents-user"),
      (300, js "codex-user"), (400, js "devspace-compat")],
      ∀ q ∈ [(0, js "project"), (100, js "benchhand-user"), (200, js "agents-user"),
        (300, js "codex-user"), (400, js "devspace-compat")],
      ch ':' ∉ p.2 ∧ (p.2 = q.2 → p.1 = q.1) := by decide
  exact hall _ hd' _ he'

/-- Skills of one root have different names, and skills of different roots
different precedences. -/
theorem nodup_flatMap_batches {descriptors : List SkillRootDescriptor}
    {batches : List SkillDiscoveryResult}
    (h : List.Forall₂ (fun descriptor batch =>
      outcome host (discoverSkillRoot service.sha256 service.parseDocument descriptor) = .ok batch)
      descriptors batches)
    (hincreasing : descriptors.Pairwise fun d e => d.precedence < e.precedence) :
    (batches.flatMap SkillDiscoveryResult.skills).Pairwise fun s t =>
      (s.precedence, s.summary.name) ≠ (t.precedence, t.summary.name) := by
  induction h with
  | nil => exact .nil
  | @cons descriptor batch descriptors batches hbatch hbatches ih =>
      obtain ⟨hfirst, hrest⟩ := List.pairwise_cons.mp hincreasing
      rw [List.flatMap_cons, List.pairwise_append]
      refine ⟨?_, ih hrest, fun s hs t ht heq => ?_⟩
      · exact (List.pairwise_map.mp (nodup_names_batch hbatch)).imp fun hne heq =>
          hne (congrArg Prod.snd heq)
      · obtain ⟨other, hother, ht⟩ := List.mem_flatMap.mp ht
        obtain ⟨d, hd, houtcome⟩ := forall₂_mem_left hbatches hother
        have hlt := hfirst d hd
        have hs' := ((mem_batch hbatch).mp hs).source.1
        have ht' := ((mem_batch houtcome).mp ht).source.1
        have heq' : s.precedence = t.precedence := congrArg Prod.fst heq
        omega

/-- The discovery gives the valid skills of all roots, each of them once and in
order. -/
theorem discoverSkills_ok {discovered : SkillDiscoveryResult}
    (h : outcome host (service.discoverSkills workspaceRoot) = .ok discovered) :
    (∀ skill, skill ∈ discovered.skills ↔ service.Skill host workspaceRoot skill) ∧
      discovered.skills.Pairwise DiscoveredSkill.Before := by
  rw [Service.discoverSkills, outcome_map] at h
  cases hbatches : outcome host (discoverSkillRoots service.sha256 service.parseDocument
      (skillRoots workspaceRoot service.homeDirectory)) with
  | error e =>
      rw [hbatches] at h
      cases h
  | ok batches =>
      rw [hbatches] at h
      obtain rfl := Except.ok.inj h
      replace hbatches := (outcome_collect_ok fun _ => uses_discoverSkillRoot).mp hbatches
      constructor
      · intro skill
        refine (List.mem_insertionSort _).trans ?_
        rw [List.mem_flatMap]
        constructor
        · rintro ⟨batch, hbatch, hskill⟩
          obtain ⟨descriptor, hmem, houtcome⟩ := forall₂_mem_left hbatches hbatch
          exact ⟨descriptor, hmem, (mem_batch houtcome).mp hskill⟩
        · rintro ⟨descriptor, hmem, hskill⟩
          obtain ⟨batch, hbatch, houtcome⟩ := forall₂_mem_left hbatches.flip hmem
          exact ⟨batch, hbatch, (mem_batch houtcome).mpr hskill⟩
      · have hne := nodup_flatMap_batches hbatches (skillRoots_increasing service.homeDirectory)
        replace hne := hne.perm (List.perm_insertionSort
          (fun left right => compareDiscoveredSkills left right ≤ 0) _).symm fun h => h.symm
        refine ((pairwise_insertionSort byKey_skills _).and hne).imp ?_
        rintro s t ⟨hle, hne⟩
        unfold DiscoveredSkill.key at hle
        rw [Prod.Lex.toLex_le_toLex, Prod.Lex.toLex_le_toLex] at hle
        obtain hlt | ⟨heq, hlt | ⟨hname, -⟩⟩ := hle
        · exact .inl hlt
        · exact .inr ⟨heq, hlt⟩
        · have hname' : s.summary.name = t.summary.name := codePoints_injective hname
          exact absurd (congrArg₂ Prod.mk heq hname') hne

/-- The ids of the valid skills are different. -/
theorem skillId_unique {s t : DiscoveredSkill} (hs : service.Skill host workspaceRoot s)
    (ht : service.Skill host workspaceRoot t) (heq : s.summary.skillId = t.summary.skillId) :
    (s.precedence, s.summary.name) = (t.precedence, t.summary.name) := by
  obtain ⟨d, hd, hs⟩ := hs
  obtain ⟨e, he, ht⟩ := ht
  obtain ⟨hcolon, hsame⟩ := source_of_skillRoots hd he
  rw [hs.source.2.2.2, ht.source.2.2.2] at heq
  obtain ⟨hsource, hname⟩ := skillId_injective hcolon (source_of_skillRoots he hd).1 heq
  rw [hs.source.1, ht.source.1, hsame hsource, hname]

end

/-! ## Catalogues -/

/-- A catalogue of some skills: those that are selected, and the others. -/
structure Catalogue (skills : DiscoveredSkill → Prop) (selected shadowed : List DiscoveredSkill) :
    Prop where
  complete : ∀ skill, skill ∈ selected ∨ skill ∈ shadowed ↔ skills skill
  /-- No id is given twice. -/
  ids : ((selected ++ shadowed).map fun skill => skill.summary.skillId).Nodup
  /-- One skill of each name is selected. -/
  names : (selected.map fun skill => skill.summary.name).Nodup
  /-- A skill is shadowed by one of a root before its own. -/
  lowest : ∀ s ∈ shadowed, ∃ t ∈ selected, t.summary.name = s.summary.name ∧
    t.precedence < s.precedence
  selectedOrder : selected.Pairwise DiscoveredSkill.Before
  shadowedOrder : shadowed.Pairwise DiscoveredSkill.Before

section
variable {skills : DiscoveredSkill → Prop} {selected shadowed selected' shadowed' :
  List DiscoveredSkill}

/-- The selected skills are those with the lowest precedence of their name. -/
theorem Catalogue.mem_selected_iff (h : Catalogue skills selected shadowed) {s : DiscoveredSkill} :
    s ∈ selected ↔ skills s ∧
      ∀ t, skills t → t.summary.name = s.summary.name → s.precedence ≤ t.precedence := by
  constructor
  · intro hs
    refine ⟨(h.complete s).mp (.inl hs), fun t ht hname => ?_⟩
    have hselected : ∀ r ∈ selected, r.summary.name = s.summary.name → r = s := fun r hr heq =>
      List.inj_on_of_nodup_map h.names hr hs heq
    obtain ht | ht := (h.complete t).mpr ht
    · rw [hselected t ht hname]
    · obtain ⟨r, hr, hname', hlt⟩ := h.lowest t ht
      rw [hselected r hr (hname'.trans hname)] at hlt
      exact Nat.le_of_lt hlt
  · rintro ⟨hs, hlowest⟩
    obtain hs | hs := (h.complete s).mpr hs
    · exact hs
    · obtain ⟨t, ht, hname, hlt⟩ := h.lowest s hs
      have hle := hlowest t ((h.complete t).mp (.inl ht)) hname
      omega

theorem Catalogue.mem_shadowed_iff (h : Catalogue skills selected shadowed) {s : DiscoveredSkill} :
    s ∈ shadowed ↔ skills s ∧ s ∉ selected := by
  constructor
  · intro hs
    refine ⟨(h.complete s).mp (.inr hs), fun hselected => ?_⟩
    have hids := h.ids
    rw [List.map_append] at hids
    exact (List.nodup_append.mp hids).2.2 _ (List.mem_map_of_mem hselected) _
      (List.mem_map_of_mem hs) rfl
  · rintro ⟨hs, hselected⟩
    exact ((h.complete s).mpr hs).resolve_left hselected

theorem eq_of_before {l l' : List DiscoveredSkill} (h : l.Pairwise DiscoveredSkill.Before)
    (h' : l'.Pairwise DiscoveredSkill.Before) (hmem : ∀ s, s ∈ l ↔ s ∈ l') : l = l' := by
  have hnodup {l : List DiscoveredSkill} (h : l.Pairwise DiscoveredSkill.Before) : l.Nodup := by
    refine List.Pairwise.imp (fun {s t} hbefore heq => ?_) h
    rw [heq] at hbefore
    exact hbefore.irrefl
  exact List.Perm.eq_of_pairwise (fun s t _ _ hst hts => absurd hts hst.asymm) h h'
    ((List.perm_ext_iff_of_nodup (hnodup h) (hnodup h')).mpr hmem)

/-- There is one catalogue of a set of skills. -/
theorem Catalogue.unique (h : Catalogue skills selected shadowed)
    (h' : Catalogue skills selected' shadowed') : selected = selected' ∧ shadowed = shadowed' := by
  have hselected : selected = selected' :=
    eq_of_before h.selectedOrder h'.selectedOrder fun s =>
      h.mem_selected_iff.trans h'.mem_selected_iff.symm
  refine ⟨hselected, eq_of_before h.shadowedOrder h'.shadowedOrder fun s => ?_⟩
  rw [h.mem_shadowed_iff, h'.mem_shadowed_iff, hselected]

end

/-- What is selected among the skills of a workspace is a catalogue of them. -/
theorem catalogue_of_discovered {host : Host} {service : Service} {workspaceRoot : JsString}
    {discovered : SkillDiscoveryResult}
    (h : outcome host (service.discoverSkills workspaceRoot) = .ok discovered) :
    ∃ selected shadowed,
      selectSkills discovered.skills =
        (selected.map DiscoveredSkill.summary, shadowed.map DiscoveredSkill.summary) ∧
      (selected ++ shadowed).Perm discovered.skills ∧
      Catalogue (service.Skill host workspaceRoot) selected shadowed := by
  obtain ⟨hmem, hbefore⟩ := discoverSkills_ok h
  let key : DiscoveredSkill → JsString := SkillSummary.name ∘ DiscoveredSkill.summary
  obtain ⟨hselected, hshadowed⟩ := @selectFirst_sublist _ _ _ key discovered.skills []
  have hperm := @selectFirst_perm _ _ _ key discovered.skills []
  refine ⟨_, _, selectFirst_map _ _ _, hperm, ?_⟩
  constructor
  · intro skill
    rw [← List.mem_append, hperm.mem_iff]
    exact hmem skill
  · refine (hperm.map _).nodup_iff.mpr ?_
    rw [List.Nodup, List.pairwise_map]
    refine hbefore.imp_of_mem fun {s t} hs ht hst heq => ?_
    have hsame := skillId_unique ((hmem s).mp hs) ((hmem t).mp ht) heq
    have hprecedence : s.precedence = t.precedence := congrArg Prod.fst hsame
    have hname : s.summary.name = t.summary.name := congrArg Prod.snd hsame
    obtain hlt | ⟨-, hlt⟩ := hst
    · omega
    · rw [hname] at hlt
      exact lt_irrefl _ hlt
  · exact (@selectFirst_keys _ _ _ key discovered.skills []).1
  · intro s hs
    obtain hnil | ⟨t, ht, hname, hbefore⟩ := @selectFirst_before _ _ _ key _ _ _ hbefore s hs
    · exact absurd hnil List.not_mem_nil
    · refine ⟨t, ht, hname, ?_⟩
      obtain hlt | ⟨-, hlt⟩ := hbefore
      · exact hlt
      · have hname' : t.summary.name = s.summary.name := hname
        rw [hname'] at hlt
        exact absurd hlt (lt_irrefl _)
  · exact hbefore.sublist hselected
  · exact hbefore.sublist hshadowed

/-! ## Listing -/

section
variable {host : Host} {service : Service} {cache : FileCache}

/-- The canonical root of an available workspace. -/
def Service.Root (service : Service) (host : Host) (workspaceId root : JsString) : Prop :=
  ∃ workspace, service.requireWorkspace workspaceId = .ok workspace ∧
    outcome host (realpath workspace.canonicalPath) = .ok root

theorem Service.Root.unique {workspaceId root root' : JsString}
    (h : service.Root host workspaceId root) (h' : service.Root host workspaceId root') :
    root = root' := by
  obtain ⟨workspace, hworkspace, hroot⟩ := h
  obtain ⟨workspace', hworkspace', hroot'⟩ := h'
  obtain rfl := Except.ok.inj (hworkspace.symm.trans hworkspace')
  exact Except.ok.inj (hroot.symm.trans hroot')

theorem outcome_canonicalWorkspaceRoot {workspace : WorkspaceRecord} {root : JsString} :
    outcome host (canonicalWorkspaceRoot workspace) = .ok root ↔
      outcome host (realpath workspace.canonicalPath) = .ok root := by
  rw [canonicalWorkspaceRoot, outcome_tryCatch uses_realpath]
  cases outcome host (realpath workspace.canonicalPath) with
  | ok found => exact Iff.rfl
  | error e => exact iff_of_false (fun h => by cases h) fun h => by cases h

/-- The two requests find the workspace and discover its skills first. -/
theorem discovers_iff {α : Type} {workspaceId : JsString} {f : SkillDiscoveryResult → Async α}
    {a : α} :
    outcome host (do
        let workspace ← ofExcept (service.requireWorkspace workspaceId)
        let workspaceRoot ← canonicalWorkspaceRoot workspace
        let discovered ← service.discoverSkills workspaceRoot
        f discovered) = .ok a ↔
      ∃ root discovered, service.Root host workspaceId root ∧
        outcome host (service.discoverSkills root) = .ok discovered ∧
        outcome host (f discovered) = .ok a := by
  rw [outcome_bind_ok uses_ofExcept]
  constructor
  · rintro ⟨workspace, hworkspace, h⟩
    obtain ⟨root, hroot, h⟩ := (outcome_bind_ok (uses_canonicalWorkspaceRoot workspace)).mp h
    obtain ⟨discovered, hdiscovered, h⟩ := (outcome_bind_ok (uses_discoverSkills service root)).mp h
    exact ⟨root, discovered, ⟨workspace, hworkspace, outcome_canonicalWorkspaceRoot.mp hroot⟩,
      hdiscovered, h⟩
  · rintro ⟨root, discovered, ⟨workspace, hworkspace, hroot⟩, hdiscovered, h⟩
    exact ⟨workspace, hworkspace, (outcome_bind_ok (uses_canonicalWorkspaceRoot workspace)).mpr
      ⟨root, outcome_canonicalWorkspaceRoot.mpr hroot,
        (outcome_bind_ok (uses_discoverSkills service root)).mpr ⟨discovered, hdiscovered, h⟩⟩⟩

theorem outcome_listSkills_iff {request : SkillsListRequest} {result : SkillsListResult} :
    outcome host (service.listSkills request) = .ok result ↔
      ∃ root discovered, service.Root host request.workspaceId root ∧
        outcome host (service.discoverSkills root) = .ok discovered ∧
        ⟨request.workspaceId, (selectSkills discovered.skills).1,
          (selectSkills discovered.skills).2, discovered.invalid⟩ = result :=
  discovers_iff.trans (exists_congr fun _ => exists_congr fun _ =>
    and_congr_right fun _ => and_congr_right fun _ => iff_of_eq (Except.ok.injEq _ _))

/-- What a listing shows. -/
structure Listed (service : Service) (host : Host) (request : SkillsListRequest)
    (result : SkillsListResult) (root : JsString) (selected others : List DiscoveredSkill) :
    Prop where
  workspaceId : result.workspaceId = request.workspaceId
  available : service.Root host request.workspaceId root
  skills : result.skills = selected.map DiscoveredSkill.summary
  shadowed : result.shadowed = others.map DiscoveredSkill.summary
  catalogue : Catalogue (service.Skill host root) selected others

theorem exists_listed {request : SkillsListRequest} {result : SkillsListResult}
    (h : outcome host (service.listSkills request) = .ok result) :
    ∃ root selected others, Listed service host request result root selected others := by
  obtain ⟨root, discovered, hroot, hdiscovered, rfl⟩ := outcome_listSkills_iff.mp h
  obtain ⟨selected, shadowed, hselect, -, hcatalogue⟩ := catalogue_of_discovered hdiscovered
  exact ⟨root, selected, shadowed, rfl, hroot, congrArg Prod.fst hselect,
    congrArg Prod.snd hselect, hcatalogue⟩

/-- The listing of a workspace, from any cache: a catalogue of the valid skills
in the five roots. -/
theorem listSkills_catalogue {request : SkillsListRequest} {result : SkillsListResult}
    (h : (value host (service.listSkills request) cache).1 = .ok result) :
    ∃ root selected others, Listed service host request result root selected others := by
  rw [value_outside (uses_listSkills service request)] at h
  exact exists_listed h

/-! ## When a listing fails -/

/-- The SKILL.md of an entry is read, and this ends with an exception that is
not reported. -/
def BreaksAt (service : Service) (host : Host) (root : JsString) (entry : Dirent) : Prop :=
  ∃ directory file error, SkillFileAt host root entry directory file ∧
    outcome host (readSkillMetadata service.sha256 service.parseDocument file entry.name) =
      .error error ∧ Breaks error

/-- A root is not there, or it is read to its end. -/
def Works (service : Service) (host : Host) (descriptor : SkillRootDescriptor) : Prop :=
  NoRoot host descriptor ∨ ∃ root entries, RootAt host descriptor root entries ∧
    ∀ entry ∈ entries, ¬ BreaksAt service host root entry

theorem entry_works_iff {descriptor : SkillRootDescriptor} {root : JsString} {entry : Dirent} :
    (∃ found, outcome host (discoverSkillEntry service.sha256 service.parseDocument descriptor root
      entry) = .ok found) ↔ ¬ BreaksAt service host root entry := by
  cases houtcome : outcome host (discoverSkillEntry service.sha256 service.parseDocument descriptor
      root entry) with
  | ok found =>
      refine iff_of_true ⟨found, rfl⟩ ?_
      rintro ⟨directory, file, error, hfile, hmetadata, hbreaks⟩
      cases houtcome.symm.trans (discoverSkillEntry_error_iff.mpr
        ⟨hbreaks, directory, file, hfile, hmetadata⟩)
  | error error =>
      obtain ⟨hbreaks, directory, file, hfile, hmetadata⟩ := discoverSkillEntry_error_iff.mp houtcome
      refine iff_of_false ?_ fun h => h ⟨directory, file, error, hfile, hmetadata, hbreaks⟩
      rintro ⟨found, h⟩
      cases h

theorem root_works_iff {descriptor : SkillRootDescriptor} :
    (∃ batch, outcome host (discoverSkillRoot service.sha256 service.parseDocument descriptor) =
      .ok batch) ↔ Works service host descriptor := by
  simp only [discoverSkillRoot_ok_iff]
  constructor
  · rintro ⟨batch, ⟨hnone, -⟩ | ⟨root, entries, found, hat, hfound, -⟩⟩
    · exact .inl hnone
    · refine .inr ⟨root, entries, hat, fun entry hentry => ?_⟩
      refine (@entry_works_iff host service descriptor root entry).mp ?_
      have hmem : entry ∈ sortEntries entries := (List.mem_insertionSort _).mpr hentry
      obtain ⟨result, -, hresult⟩ := forall₂_mem_left hfound.flip hmem
      exact ⟨result, hresult⟩
  · rintro (hnone | ⟨root, entries, hat, hworks⟩)
    · exact ⟨_, .inl ⟨hnone, rfl⟩⟩
    · have hall : ∀ entry ∈ sortEntries entries, ∃ found, outcome host
          (discoverSkillEntry service.sha256 service.parseDocument descriptor root entry) =
            .ok found := fun entry hentry =>
        entry_works_iff.mpr (hworks entry ((List.mem_insertionSort _).mp hentry))
      obtain ⟨found, hfound⟩ := (exists_collect_iff fun _ => uses_discoverSkillEntry).mpr hall
      exact ⟨_, .inr ⟨root, entries, found, hat,
        (outcome_collect_ok fun _ => uses_discoverSkillEntry).mp hfound, rfl⟩⟩

theorem discoverSkills_works_iff {root : JsString} :
    (∃ discovered, outcome host (service.discoverSkills root) = .ok discovered) ↔
      ∀ descriptor ∈ skillRoots root service.homeDirectory, Works service host descriptor := by
  simp only [← root_works_iff]
  rw [← exists_collect_iff fun _ => uses_discoverSkillRoot, Service.discoverSkills, outcome_map]
  constructor
  · rintro ⟨discovered, h⟩
    cases hbatches : outcome host (discoverSkillRoots service.sha256 service.parseDocument
        (skillRoots root service.homeDirectory)) with
    | ok batches => exact ⟨batches, hbatches⟩
    | error e =>
        rw [hbatches] at h
        cases h
  · rintro ⟨batches, hbatches⟩
    exact ⟨mergeBatches batches, congrArg (Except.map mergeBatches) hbatches⟩

/-- The calls that open, read and close the file are not denied. -/
structure Permits (host : Host) (file : JsString) (handle : Handle) : Prop where
  opens : host.denied (.os (.openRead file)) = none
  reads : ∀ position length, host.denied (.os (.read handle position length)) = none
  closes : host.denied (.os (.close handle)) = none

/-- A directory cannot be read as a SKILL.md. -/
theorem breaksAt_of_directory {root directory file : JsString} {entry : Dirent} {place : Path}
    (hpermits : Permits host file ⟨place, .directory⟩)
    (h : SkillFileAt host root entry directory file)
    (hlocate : host.vol.locate true file = .ok place)
    (hnode : host.vol.node? place = some .directory) : BreaksAt service host root entry := by
  have hopen : outcome host (os (.openRead file)) = .ok (⟨place, .directory⟩ : Handle) :=
    congrArg Prod.fst (value_os_ok hpermits.opens (perform_openRead.mpr ⟨rfl, hlocate, hnode⟩))
  have hclose : closed host ⟨place, .directory⟩ = .ok ⟨⟩ :=
    congrArg Prod.fst (value_os_ok hpermits.closes rfl)
  have hread : firstBytes host ⟨place, .directory⟩ =
      .error (.errno (Reason.EISDIR.errno "read" [])) := by
    change (host.permit _ (.error (Reason.EISDIR.errno "read" []))).mapError Thrown.errno = _
    rw [Host.permit_none (hpermits.reads _ _)]
    rfl
  refine ⟨directory, file, .errno (Reason.EISDIR.errno "read" []), h, ?_, by decide,
    fun e he => by cases he⟩
  rw [outcome_readSkillMetadata_of_open hopen, hclose, hread]
  rfl

theorem listSkills_works_iff {request : SkillsListRequest} :
    (∃ result, (value host (service.listSkills request) cache).1 = .ok result) ↔
      ∃ root, service.Root host request.workspaceId root ∧
        ∀ descriptor ∈ skillRoots root service.homeDirectory, Works service host descriptor := by
  rw [value_outside (uses_listSkills service request)]
  simp only [outcome_listSkills_iff, ← discoverSkills_works_iff]
  constructor
  · rintro ⟨result, root, discovered, hroot, hdiscovered, -⟩
    exact ⟨root, hroot, discovered, hdiscovered⟩
  · rintro ⟨root, hroot, discovered, hdiscovered⟩
    exact ⟨_, root, discovered, hroot, hdiscovered, rfl⟩

/-- An entry of a root that is no valid skill makes no difference to the skills
of a listing, unless it breaks: a listing succeeds just when no entry does, one
whose SKILL.md is a directory breaks it, and two hosts with the same valid
skills list the same, whatever else their roots have and in whatever order. -/
theorem listSkills_isolated (request : SkillsListRequest) :
    ((∃ result, (value host (service.listSkills request) cache).1 = .ok result) ↔
      ∃ root, service.Root host request.workspaceId root ∧
        ∀ descriptor ∈ skillRoots root service.homeDirectory, Works service host descriptor) ∧
    (∀ root descriptor skillRoot entries entry directory file place,
      service.Root host request.workspaceId root →
      descriptor ∈ skillRoots root service.homeDirectory →
      RootAt host descriptor skillRoot entries → entry ∈ entries →
      SkillFileAt host skillRoot entry directory file → host.vol.locate true file = .ok place →
      host.vol.node? place = some .directory → Permits host file ⟨place, .directory⟩ →
        ¬ ∃ result, (value host (service.listSkills request) cache).1 = .ok result) ∧
    ∀ host' cache' result result' root root',
      (value host (service.listSkills request) cache).1 = .ok result →
      (value host' (service.listSkills request) cache').1 = .ok result' →
      service.Root host request.workspaceId root → service.Root host' request.workspaceId root' →
      (∀ skill, service.Skill host root skill ↔ service.Skill host' root' skill) →
        result'.skills = result.skills ∧ result'.shadowed = result.shadowed := by
  refine ⟨listSkills_works_iff, ?_, ?_⟩
  · intro root descriptor skillRoot entries entry directory file place hroot hmem hat hentry hfile
      hlocate hnode hpermits hresult
    obtain ⟨root', hroot', hworks⟩ := listSkills_works_iff.mp hresult
    obtain rfl := hroot.unique hroot'
    obtain ⟨error, herror, -⟩ | ⟨skillRoot', entries', hat', hnone⟩ := hworks descriptor hmem
    · cases herror.symm.trans hat.resolves
    · obtain rfl := Except.ok.inj (hat.resolves.symm.trans hat'.resolves)
      obtain rfl := Except.ok.inj (hat.enumerates.symm.trans hat'.enumerates)
      exact hnone entry hentry (breaksAt_of_directory hpermits hfile hlocate hnode)
  · intro host' cache' result result' root root' h h' hroot hroot' hsame
    rw [value_outside (uses_listSkills service request)] at h h'
    obtain ⟨_, selected, others, hlisted⟩ := exists_listed h
    obtain ⟨_, selected', others', hlisted'⟩ := exists_listed h'
    obtain rfl := hroot.unique hlisted.available
    obtain rfl := hroot'.unique hlisted'.available
    have hcatalogue' : Catalogue (service.Skill host root) selected' others' := by
      rw [show service.Skill host root = service.Skill host' root' from
        funext fun skill => propext (hsame skill)]
      exact hlisted'.catalogue
    obtain ⟨rfl, rfl⟩ := hlisted.catalogue.unique hcatalogue'
    exact ⟨hlisted'.skills.trans hlisted.skills.symm, hlisted'.shadowed.trans hlisted.shadowed.symm⟩

end

/-! ### Two skills of one name -/

/-- The entries of a directory `a` with a SKILL.md, below a root of skills. -/
def skillTree (root : Path) (name : Name) : List (Path × Node) :=
  [(root ++ [name], .directory), (root ++ [name, "skills".toList], .directory),
    (root ++ [name, "skills".toList, "a".toList], .directory),
    (root ++ [name, "skills".toList, "a".toList, "SKILL.md".toList],
      .file (bytesOf (plainHeader ++ ['\n'])) 0o644)]

/-- A host with the skill `a` in the workspace `/ws` and in the home directory. -/
def catalogueHost : Host where
  vol := ⟨⟨(["ws".toList], .directory) :: skillTree ["ws".toList] ".agents".toList ++
    (["home".toList], .directory) :: skillTree ["home".toList] ".codex".toList, by
      unfold skillTree
      decide⟩, 0o022⟩
  stamp _ _ := (0, 0, 0, 0)
  denied _ := none

/-- A service for this workspace and this user. -/
def catalogueService : Service where
  resolveWorkspace id := .ok (if id = js "ws" then some ⟨js "/ws", .available⟩ else none)
  providers := []
  homeDirectory := js "/home"
  sha256 _ := []
  parseDocument := plainYaml

theorem listSkills_catalogueHost : ∃ result,
    (value catalogueHost (catalogueService.listSkills ⟨js "ws"⟩) .empty).1 = .ok result ∧
      result.skills.map SkillSummary.skillId = [js "project:a"] ∧
      result.shadowed.map SkillSummary.skillId = [js "codex-user:a"] := by
  have hids : (value catalogueHost (catalogueService.listSkills ⟨js "ws"⟩) .empty).1.toOption.map
      (fun result => (result.skills.map SkillSummary.skillId,
        result.shadowed.map SkillSummary.skillId)) =
      some ([js "project:a"], [js "codex-user:a"]) := by
    decide +kernel
  cases hvalue : (value catalogueHost (catalogueService.listSkills ⟨js "ws"⟩) .empty).1 with
  | error e =>
      rw [hvalue] at hids
      cases hids
  | ok result =>
      rw [hvalue] at hids
      have hpair := Option.some.inj hids
      exact ⟨result, rfl, congrArg Prod.fst hpair, congrArg Prod.snd hpair⟩

theorem listSkills_catalogue_two : ∃ result root selected others,
    (value catalogueHost (catalogueService.listSkills ⟨js "ws"⟩) .empty).1 = .ok result ∧
      result.skills.map SkillSummary.skillId = [js "project:a"] ∧
      result.shadowed.map SkillSummary.skillId = [js "codex-user:a"] ∧
      Listed catalogueService catalogueHost ⟨js "ws"⟩ result root selected others := by
  obtain ⟨result, hresult, hskills, hshadowed⟩ := listSkills_catalogueHost
  obtain ⟨root, selected, others, hlisted⟩ := listSkills_catalogue hresult
  exact ⟨result, root, selected, others, hresult, hskills, hshadowed, hlisted⟩

/-- The host with one more entry, whose SKILL.md is this. -/
def litteredHost (node : Node) : Host :=
  let entry : Path := ["ws".toList, ".agents".toList, "skills".toList, "x".toList]
  { catalogueHost with
    vol := (catalogueHost.vol.put entry .directory).put (entry ++ ["SKILL.md".toList]) node }

theorem root_littered (node : Node) :
    catalogueService.Root (litteredHost node) (js "ws") (js "/ws") :=
  ⟨_, rfl, rfl⟩

/-- An entry without frontmatter is no skill. -/
theorem skill_littered (skill : DiscoveredSkill) :
    catalogueService.Skill catalogueHost (js "/ws") skill ↔
      catalogueService.Skill (litteredHost (.file [] 0o644)) (js "/ws") skill := by
  have hskills : (outcome catalogueHost (catalogueService.discoverSkills (js "/ws"))).toOption.map
      SkillDiscoveryResult.skills =
      (outcome (litteredHost (.file [] 0o644))
        (catalogueService.discoverSkills (js "/ws"))).toOption.map SkillDiscoveryResult.skills := by
    decide +kernel
  have hok : (outcome catalogueHost (catalogueService.discoverSkills (js "/ws"))).isOk = true := by
    decide +kernel
  cases h : outcome catalogueHost (catalogueService.discoverSkills (js "/ws")) with
  | error e =>
      rw [h] at hok
      cases hok
  | ok discovered =>
      cases h' : outcome (litteredHost (.file [] 0o644))
          (catalogueService.discoverSkills (js "/ws")) with
      | error e =>
          rw [h, h'] at hskills
          cases hskills
      | ok discovered' =>
          rw [h, h'] at hskills
          have hsame : discovered.skills = discovered'.skills := Option.some.inj hskills
          rw [← (discoverSkills_ok h).1, ← (discoverSkills_ok h').1, hsame]

/-- One more entry that is no skill, and one that breaks the listing. -/
theorem listSkills_isolated_littered :
    (∃ result result',
      (value catalogueHost (catalogueService.listSkills ⟨js "ws"⟩) .empty).1 = .ok result ∧
      (value (litteredHost (.file [] 0o644)) (catalogueService.listSkills ⟨js "ws"⟩) .empty).1 =
        .ok result' ∧
      result'.skills = result.skills ∧ result'.shadowed = result.shadowed) ∧
    ¬ ∃ result,
      (value (litteredHost .directory) (catalogueService.listSkills ⟨js "ws"⟩) .empty).1 =
        .ok result := by
  constructor
  · obtain ⟨result, hresult, -, -⟩ := listSkills_catalogueHost
    have hok : (value (litteredHost (.file [] 0o644)) (catalogueService.listSkills ⟨js "ws"⟩)
        .empty).1.isOk = true := by
      decide +kernel
    cases hresult' : (value (litteredHost (.file [] 0o644)) (catalogueService.listSkills ⟨js "ws"⟩)
        .empty).1 with
    | error e =>
        rw [hresult'] at hok
        cases hok
    | ok result' =>
        obtain ⟨-, -, hsame⟩ := @listSkills_isolated catalogueHost catalogueService .empty ⟨js "ws"⟩
        exact ⟨result, result', hresult, rfl, hsame _ _ _ _ _ _ hresult hresult' ⟨_, rfl, rfl⟩
          (root_littered _) skill_littered⟩
  · obtain ⟨-, hbroken, -⟩ :=
      @listSkills_isolated (litteredHost .directory) catalogueService .empty ⟨js "ws"⟩
    exact hbroken (js "/ws") _ (js "/ws/.agents/skills") [⟨js "x", .directory⟩, ⟨js "a", .directory⟩] ⟨js "x", .directory⟩
      (js "/ws/.agents/skills/x") (js "/ws/.agents/skills/x/SKILL.md")
      ["ws".toList, ".agents".toList, "skills".toList, "x".toList, "SKILL.md".toList]
      (root_littered _) List.mem_cons_self ⟨rfl, fun _ h => Option.some.inj h ▸ rfl, rfl⟩ (by decide)
      ⟨.inl rfl, rfl, rfl, rfl, rfl⟩ rfl rfl ⟨rfl, fun _ _ => rfl, rfl⟩

end Benchhand.Instructions
