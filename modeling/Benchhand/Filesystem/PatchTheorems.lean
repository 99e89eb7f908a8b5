/-
Benchhand.Filesystem.PatchTheorems — planning a patch.

`planExactPatch` succeeds just when every old text stands at one place of the
source and no two of these places overlap (`planExactPatch_ok_iff`); looking
at neighbours is enough, since the edits are ordered by their starts. Going
through the plan then replaces all spans at once, so neither success nor the
result depends on the order of the edits (`patch_planned`).
-/
import Benchhand.Filesystem.Patch
import Benchhand.Text.Splice

namespace Benchhand.Filesystem

open Text

variable {source path : JsString} {edits : List PatchEdit}

/-! ## What a patch is for -/

/-- Every old text stands at exactly one place. -/
def FoundOnce (source : JsString) (edits : List PatchEdit) : Prop :=
  ∀ edit ∈ edits, ∃! i, OccursAt source edit.oldText i

/-- The spans of two edits have no place in common. -/
def SpansApart (source : JsString) (edit other : PatchEdit) : Prop :=
  ∀ i j, OccursAt source edit.oldText i → OccursAt source other.oldText j →
    i + edit.oldText.length ≤ j ∨ j + other.oldText.length ≤ i

/-- The splice puts the new text where the old one stands. -/
structure SpanOf (source : JsString) (edit : PatchEdit) (s : Splice UInt16) : Prop where
  start : OccursAt source edit.oldText s.start
  stop : s.stop = s.start + edit.oldText.length
  text : s.text = edit.newText

/-- The splices of the edits. -/
def Spans (source : JsString) (edits : List PatchEdit) (spans : List (Splice UInt16)) : Prop :=
  List.Forall₂ (SpanOf source) edits spans

/-! ## The place of one edit -/

theorem mem_findAllOccurrences {expected : JsString} (hexpected : expected ≠ []) {i : Nat} :
    i ∈ findAllOccurrences source expected ↔ OccursAt source expected i := by
  rw [findAllOccurrences, mem_occurrencesFrom_one hexpected (by omega)]
  exact and_iff_right (Nat.zero_le i)

theorem nodup_findAllOccurrences (source expected : JsString) :
    (findAllOccurrences source expected).Nodup := by
  have hapart : (findAllOccurrences source expected).Pairwise fun i j => i + 1 ≤ j :=
    pairwise_occurrencesFrom _ _
  exact hapart.imp fun {i j} h => Nat.ne_of_lt h

/-- The plan for an edit that is found. -/
def plannedAt (source : JsString) (edit : PatchEdit) (editIndex : Nat) : PlannedPatchEdit :=
  let start := (findAllOccurrences source edit.oldText).headD 0
  { edit with editIndex, start, stop := start + edit.oldText.length }

theorem planEdit_ok_iff {edit : PatchEdit} (hold : edit.oldText ≠ []) {editIndex : Nat}
    {planned : PlannedPatchEdit} : planEdit source path edit editIndex = .ok planned ↔
      (∃! i, OccursAt source edit.oldText i) ∧ planned = plannedAt source edit editIndex := by
  have hmem : ∀ i, i ∈ findAllOccurrences source edit.oldText ↔ OccursAt source edit.oldText i :=
    fun i => mem_findAllOccurrences hold
  have hnodup := nodup_findAllOccurrences source edit.oldText
  unfold planEdit plannedAt
  cases hplaces : findAllOccurrences source edit.oldText with
  | nil =>
      rw [hplaces] at hmem
      refine ⟨fun h => (by cases h), fun ⟨⟨i, hi, _⟩, _⟩ => ?_⟩
      exact absurd ((hmem i).mpr hi) List.not_mem_nil
  | cons start others =>
      rw [hplaces] at hmem hnodup
      cases others with
      | nil =>
          have hunique : ∃! i, OccursAt source edit.oldText i :=
            ⟨start, (hmem start).mp List.mem_cons_self,
              fun i hi => List.mem_singleton.mp ((hmem i).mpr hi)⟩
          refine ⟨fun h => ⟨hunique, (Except.ok.inj h).symm⟩, fun ⟨_, h⟩ => ?_⟩
          rw [h]
          rfl
      | cons other more =>
          refine ⟨fun h => (by cases h), fun ⟨hunique, _⟩ => ?_⟩
          have hfirst := (hmem start).mp List.mem_cons_self
          have hsecond := (hmem other).mp (List.mem_cons_of_mem _ List.mem_cons_self)
          have hne : start ≠ other := fun h =>
            (List.nodup_cons.mp hnodup).1 (h ▸ List.mem_cons_self)
          exact absurd (hunique.unique hfirst hsecond) hne

theorem mapM_ok_iff {α β ε : Type} {f : α → Except ε β} {g : α → β} {P : α → Prop} :
    ∀ {xs : List α} {ys : List β}, (∀ x ∈ xs, ∀ y, f x = .ok y ↔ P x ∧ y = g x) →
      (xs.mapM f = .ok ys ↔ (∀ x ∈ xs, P x) ∧ ys = xs.map g)
  | [], ys, _ => by
      rw [List.mapM_nil, List.map_nil]
      refine ⟨fun h => ⟨fun x hx => absurd hx List.not_mem_nil, (Except.ok.inj h).symm⟩, ?_⟩
      rintro ⟨-, rfl⟩
      rfl
  | x :: xs, ys, h => by
      have hhead := h x List.mem_cons_self
      have hrest : ∀ zs, xs.mapM f = .ok zs ↔ (∀ x ∈ xs, P x) ∧ zs = xs.map g := fun zs =>
        mapM_ok_iff fun x hx => h x (List.mem_cons_of_mem _ hx)
      rw [List.mapM_cons, List.forall_mem_cons, List.map_cons]
      cases hf : f x with
      | error e =>
          refine ⟨fun h => (by cases h), fun ⟨⟨hx, _⟩, _⟩ => ?_⟩
          have hok := (hhead (g x)).mpr ⟨hx, rfl⟩
          rw [hf] at hok
          cases hok
      | ok y =>
          obtain ⟨hx, rfl⟩ := (hhead y).mp hf
          cases hmap : xs.mapM f with
          | error e =>
              refine ⟨fun h => (by cases h), fun ⟨⟨_, hxs⟩, _⟩ => ?_⟩
              have hok := (hrest _).mpr ⟨hxs, rfl⟩
              rw [hmap] at hok
              cases hok
          | ok zs =>
              obtain ⟨hxs, rfl⟩ := (hrest zs).mp hmap
              exact ⟨fun h => ⟨⟨hx, hxs⟩, (Except.ok.inj h).symm⟩, fun ⟨_, h⟩ => by rw [h]; rfl⟩

/-- The edits with their places, as they come. -/
def plannedEdits (source : JsString) (edits : List PatchEdit) : List PlannedPatchEdit :=
  edits.zipIdx.map fun p => plannedAt source p.1 p.2

theorem mapM_planEdit_ok_iff (hold : ∀ edit ∈ edits, edit.oldText ≠ [])
    {planned : List PlannedPatchEdit} :
    (edits.zipIdx.mapM fun (edit, editIndex) => planEdit source path edit editIndex) =
        .ok planned ↔
      FoundOnce source edits ∧ planned = plannedEdits source edits := by
  have hedit : ∀ p ∈ edits.zipIdx, ∀ planned : PlannedPatchEdit,
      planEdit source path p.1 p.2 = .ok planned ↔
        (∃! i, OccursAt source p.1.oldText i) ∧ planned = plannedAt source p.1 p.2 := by
    intro p hp planned
    exact planEdit_ok_iff (hold p.1 (List.fst_mem_of_mem_zipIdx hp))
  refine (mapM_ok_iff hedit).trans (and_congr_left fun _ => ?_)
  refine ⟨fun h edit hmem => ?_, fun h p hp => h p.1 (List.fst_mem_of_mem_zipIdx hp)⟩
  obtain ⟨k, hk⟩ := List.mem_iff_getElem?.mp hmem
  exact h (edit, k) (List.mk_mem_zipIdx_iff_getElem?.mpr hk)

/-! ## The plan -/

def PlannedPatchEdit.splice (planned : PlannedPatchEdit) : Splice UInt16 :=
  ⟨planned.start, planned.stop, planned.newText⟩

/-- The splice of an edit that is found. -/
def spanOf (source : JsString) (edit : PatchEdit) : Splice UInt16 :=
  (plannedAt source edit 0).splice

theorem map_splice_plannedEdits (source : JsString) (edits : List PatchEdit) :
    (plannedEdits source edits).map PlannedPatchEdit.splice = edits.map (spanOf source) := by
  unfold plannedEdits
  conv_rhs => rw [← List.zipIdx_map_fst 0 edits]
  rw [List.map_map, List.map_map]
  rfl

section
variable (hold : ∀ edit ∈ edits, edit.oldText ≠ [])
include hold

theorem spanOf_spanOf (hfound : FoundOnce source edits) {edit : PatchEdit} (hmem : edit ∈ edits) :
    SpanOf source edit (spanOf source edit) := by
  obtain ⟨i, hi, -⟩ := hfound edit hmem
  have hplaces : findAllOccurrences source edit.oldText ≠ [] :=
    List.ne_nil_of_mem ((mem_findAllOccurrences (hold edit hmem)).mpr hi)
  refine ⟨(mem_findAllOccurrences (hold edit hmem)).mp ?_, rfl, rfl⟩
  rw [spanOf, plannedAt, PlannedPatchEdit.splice, List.headD_eq_head?_getD,
    List.head?_eq_some_head hplaces]
  exact List.head_mem hplaces

theorem within_spanOf (hfound : FoundOnce source edits) :
    ∀ s ∈ edits.map (spanOf source), s.Within source.length := by
  intro s hs
  obtain ⟨edit, hmem, rfl⟩ := List.mem_map.mp hs
  have hspan := spanOf_spanOf hold hfound hmem
  have hpos := List.length_pos_iff.mpr (hold edit hmem)
  have hstop := hspan.start.stop_le (hold edit hmem)
  exact ⟨by rw [hspan.stop]; omega, by rw [hspan.stop]; exact hstop⟩

theorem spansApart_iff (hfound : FoundOnce source edits) : edits.Pairwise (SpansApart source) ↔
    (edits.map (spanOf source)).Pairwise Splice.Apart := by
  rw [List.pairwise_map]
  refine List.Pairwise.iff_of_mem fun {edit other} hedit hother => ?_
  have hspan := spanOf_spanOf hold hfound hedit
  have hspan' := spanOf_spanOf hold hfound hother
  unfold SpansApart Splice.Apart
  rw [hspan.stop, hspan'.stop]
  refine ⟨fun h => h _ _ hspan.start hspan'.start, fun h i j hi hj => ?_⟩
  rwa [(hfound edit hedit).unique hi hspan.start, (hfound other hother).unique hj hspan'.start]

end

/-- The order of the plan. -/
def orderedPlan (source : JsString) (edits : List PatchEdit) : List PlannedPatchEdit :=
  (plannedEdits source edits).insertionSort fun left right => left.start ≤ right.start

theorem orderedPlan_perm (source : JsString) (edits : List PatchEdit) :
    (orderedPlan source edits).Perm (plannedEdits source edits) := List.perm_insertionSort _ _

theorem map_splice_perm (source : JsString) (edits : List PatchEdit) :
    ((orderedPlan source edits).map PlannedPatchEdit.splice).Perm (edits.map (spanOf source)) := by
  rw [← map_splice_plannedEdits]
  exact (orderedPlan_perm source edits).map _

theorem orderedPlan_starts (source : JsString) (edits : List PatchEdit) :
    ((orderedPlan source edits).map PlannedPatchEdit.splice).Pairwise
      fun s t => s.start ≤ t.start := by
  have htotal : Std.Total fun left right : PlannedPatchEdit => left.start ≤ right.start :=
    ⟨fun left right => Nat.le_total left.start right.start⟩
  have htrans : IsTrans PlannedPatchEdit fun left right => left.start ≤ right.start :=
    ⟨fun _ _ _ => Nat.le_trans⟩
  exact List.pairwise_map.mpr (List.pairwise_insertionSort _ _)

theorem checkOverlaps_ok_iff : ∀ {planned : List PlannedPatchEdit},
    checkOverlaps path planned = .ok ⟨⟩ ↔
      (planned.map PlannedPatchEdit.splice).IsChain fun s t => s.stop ≤ t.start
  | [] => iff_of_true rfl List.IsChain.nil
  | [planned] => iff_of_true rfl (List.IsChain.singleton _)
  | previous :: current :: rest => by
      rw [checkOverlaps, List.map_cons, List.map_cons, List.isChain_cons_cons]
      split
      · rename_i hoverlap
        refine ⟨fun h => (by cases h), fun ⟨hle, _⟩ => ?_⟩
        exact absurd hle (Nat.not_le_of_lt hoverlap)
      · rename_i hoverlap
        rw [checkOverlaps_ok_iff, List.map_cons]
        exact (and_iff_right (Nat.le_of_not_lt hoverlap)).symm

theorem inOrder_iff (hold : ∀ edit ∈ edits, edit.oldText ≠ []) (hfound : FoundOnce source edits) :
    InOrder ((orderedPlan source edits).map PlannedPatchEdit.splice) ↔
      edits.Pairwise (SpansApart source) := by
  have hperm := map_splice_perm source edits
  have hne : ∀ s ∈ (orderedPlan source edits).map PlannedPatchEdit.splice, s.start < s.stop :=
    fun s hs => (within_spanOf hold hfound s (hperm.mem_iff.mp hs)).1
  rw [inOrder_iff_apart hne (orderedPlan_starts source edits), spansApart_iff hold hfound]
  exact hperm.pairwise_iff fun h => h.symm

/-- When a patch is planned, and how. -/
theorem planExactPatch_ok_iff (hold : ∀ edit ∈ edits, edit.oldText ≠ [])
    {plan : List PlannedPatchEdit} : planExactPatch source edits path = .ok plan ↔
      FoundOnce source edits ∧ edits.Pairwise (SpansApart source) ∧
        plan = orderedPlan source edits := by
  unfold planExactPatch
  cases hplanned : edits.zipIdx.mapM fun (edit, editIndex) =>
      planEdit source path edit editIndex with
  | error e =>
      refine ⟨fun h => (by cases h), fun ⟨hfound, _⟩ => ?_⟩
      have hok := (@mapM_planEdit_ok_iff source path edits hold _).mpr ⟨hfound, rfl⟩
      rw [hplanned] at hok
      cases hok
  | ok planned =>
      obtain ⟨hfound, rfl⟩ := (mapM_planEdit_ok_iff hold).mp hplanned
      have hne : ∀ s ∈ (orderedPlan source edits).map PlannedPatchEdit.splice, s.start < s.stop :=
        fun s hs => (within_spanOf hold hfound s
          ((map_splice_perm source edits).mem_iff.mp hs)).1
      have hoverlaps : checkOverlaps path (orderedPlan source edits) = .ok ⟨⟩ ↔
          edits.Pairwise (SpansApart source) := by
        rw [checkOverlaps_ok_iff, isChain_iff_inOrder hne, inOrder_iff hold hfound]
      rw [and_iff_right hfound, ← hoverlaps]
      change (checkOverlaps path (orderedPlan source edits) >>= fun _ =>
        .ok (orderedPlan source edits)) = _ ↔ _
      cases hcheck : checkOverlaps path (orderedPlan source edits) with
      | error e => exact ⟨fun h => (by cases h), fun h => (by cases h.1)⟩
      | ok _ => exact ⟨fun h => ⟨rfl, (Except.ok.inj h).symm⟩, fun h => by rw [h.2]; rfl⟩

/-! ## The patched text -/

theorem applyFromCursor_eq : ∀ {planned : List PlannedPatchEdit} {cursor : Nat},
    applyFromCursor source cursor planned =
      spliceFrom source cursor (planned.map PlannedPatchEdit.splice)
  | [], _ => rfl
  | edit :: rest, cursor => by
      rw [applyFromCursor, applyFromCursor_eq]
      rfl

/-- What a plan does. -/
structure PatchesAsOne (source : JsString) (edits : List PatchEdit)
    (plan : List PlannedPatchEdit) : Prop where
  /-- All spans are replaced at once. -/
  simultaneous : ∃ spans, Spans source edits spans ∧
    applyPlannedPatch source plan = spliced source spans
  length : ((applyPlannedPatch source plan).length : Int) = source.length +
    (edits.map fun edit => (edit.newText.length : Int) - edit.oldText.length).sum
  /-- There is one entry for each edit. -/
  entries : (plan.map fun planned => (planned.toPatchEdit, planned.editIndex)).Perm edits.zipIdx

theorem patchesAsOne (hold : ∀ edit ∈ edits, edit.oldText ≠ []) (hfound : FoundOnce source edits)
    (hapart : edits.Pairwise (SpansApart source)) :
    PatchesAsOne source edits (orderedPlan source edits) := by
  have hperm := map_splice_perm source edits
  have horder := (inOrder_iff hold hfound).mpr hapart
  have hwithin : ∀ s ∈ (orderedPlan source edits).map PlannedPatchEdit.splice,
      s.Within source.length := fun s hs => within_spanOf hold hfound s (hperm.mem_iff.mp hs)
  constructor
  · refine ⟨edits.map (spanOf source), ?_, ?_⟩
    · rw [Spans, List.forall₂_map_right_iff, List.forall₂_same]
      exact fun edit hmem => spanOf_spanOf hold hfound hmem
    · rw [applyPlannedPatch, applyFromCursor_eq, spliceFrom_eq horder hwithin]
      exact spliced_perm hperm horder.apart
  · have hlength := length_spliceFrom horder (fun s hs => ⟨hwithin s hs, Nat.zero_le _⟩)
      (Nat.zero_le source.length)
    have hsum := (hperm.map fun s => (s.text.length : Int) - (s.stop - s.start)).sum_eq
    have hedits : ((edits.map (spanOf source)).map fun s =>
        (s.text.length : Int) - (s.stop - s.start)) =
        edits.map fun edit => (edit.newText.length : Int) - edit.oldText.length := by
      rw [List.map_map]
      refine List.map_congr_left fun edit hmem => ?_
      have hspan := spanOf_spanOf hold hfound hmem
      simp only [Function.comp_apply, hspan.stop, hspan.text]
      omega
    rw [applyPlannedPatch, applyFromCursor_eq, hlength, hsum, hedits]
    simp
  · have hentries : (plannedEdits source edits).map
        (fun planned => (planned.toPatchEdit, planned.editIndex)) = edits.zipIdx := by
      rw [plannedEdits, List.map_map]
      exact List.map_id _
    exact hentries ▸ (orderedPlan_perm source edits).map _

/-- Another order of the edits is planned just as well, and does the same. -/
theorem planExactPatch_perm (hold : ∀ edit ∈ edits, edit.oldText ≠ []) {edits' : List PatchEdit}
    (hperm : edits.Perm edits') {plan : List PlannedPatchEdit}
    (hplan : planExactPatch source edits path = .ok plan) :
    ∃ plan', planExactPatch source edits' path = .ok plan' ∧
      applyPlannedPatch source plan' = applyPlannedPatch source plan := by
  obtain ⟨hfound, hapart, rfl⟩ := (planExactPatch_ok_iff hold).mp hplan
  have hold' : ∀ edit ∈ edits', edit.oldText ≠ [] := fun edit hmem =>
    hold edit (hperm.mem_iff.mpr hmem)
  have hfound' : FoundOnce source edits' := fun edit hmem =>
    hfound edit (hperm.mem_iff.mpr hmem)
  have hsymm : ∀ {edit other : PatchEdit}, SpansApart source edit other →
      SpansApart source other edit := fun h i j hi hj => (h j i hj hi).symm
  have hapart' : edits'.Pairwise (SpansApart source) := hapart.perm hperm hsymm
  refine ⟨_, (planExactPatch_ok_iff hold').mpr ⟨hfound', hapart', rfl⟩, ?_⟩
  have horder := (inOrder_iff hold hfound).mpr hapart
  have horder' := (inOrder_iff hold' hfound').mpr hapart'
  have hspans := ((map_splice_perm source edits').trans (hperm.map _).symm).trans
    (map_splice_perm source edits).symm
  rw [applyPlannedPatch, applyPlannedPatch, applyFromCursor_eq, applyFromCursor_eq,
    spliceFrom_eq horder' fun s hs => within_spanOf hold' hfound' s
      ((map_splice_perm source edits').mem_iff.mp hs),
    spliceFrom_eq horder fun s hs => within_spanOf hold hfound s
      ((map_splice_perm source edits).mem_iff.mp hs)]
  exact spliced_perm hspans horder'.apart

/-- Planning a patch succeeds just when every old text stands at one place and
no two places overlap; the plan replaces all spans at once; and the order of
the edits does not matter. -/
theorem patch_planned (hold : ∀ edit ∈ edits, edit.oldText ≠ []) :
    ((∃ plan, planExactPatch source edits path = .ok plan) ↔
      FoundOnce source edits ∧ edits.Pairwise (SpansApart source)) ∧
    (∀ plan, planExactPatch source edits path = .ok plan → PatchesAsOne source edits plan) ∧
    ∀ edits', edits.Perm edits' →
      ((∃ plan, planExactPatch source edits' path = .ok plan) ↔
        ∃ plan, planExactPatch source edits path = .ok plan) ∧
      ∀ plan plan', planExactPatch source edits path = .ok plan →
        planExactPatch source edits' path = .ok plan' →
          applyPlannedPatch source plan' = applyPlannedPatch source plan := by
  refine ⟨⟨?_, ?_⟩, ?_, ?_⟩
  · rintro ⟨plan, hplan⟩
    obtain ⟨hfound, hapart, -⟩ := (planExactPatch_ok_iff hold).mp hplan
    exact ⟨hfound, hapart⟩
  · rintro ⟨hfound, hapart⟩
    exact ⟨_, (planExactPatch_ok_iff hold).mpr ⟨hfound, hapart, rfl⟩⟩
  · intro plan hplan
    obtain ⟨hfound, hapart, rfl⟩ := (planExactPatch_ok_iff hold).mp hplan
    exact patchesAsOne hold hfound hapart
  · intro edits' hperm
    have hold' : ∀ edit ∈ edits', edit.oldText ≠ [] := fun edit hmem =>
      hold edit (hperm.mem_iff.mpr hmem)
    refine ⟨⟨?_, ?_⟩, fun plan plan' hplan hplan' => ?_⟩
    · rintro ⟨plan', hplan'⟩
      obtain ⟨plan, hplan, -⟩ := planExactPatch_perm hold' hperm.symm hplan'
      exact ⟨plan, hplan⟩
    · rintro ⟨plan, hplan⟩
      obtain ⟨plan', hplan', -⟩ := planExactPatch_perm hold hperm hplan
      exact ⟨plan', hplan'⟩
    · obtain ⟨plan'', hplan'', happlied⟩ := planExactPatch_perm hold hperm hplan
      obtain rfl := Except.ok.inj (hplan''.symm.trans hplan')
      exact happlied

/-- Two edits of `abc` that touch, in both orders. -/
theorem patch_planned_touching : ∃ plan plan',
    planExactPatch (js "abc") [⟨js "b", js "x"⟩, ⟨js "a", js ""⟩] (js "f") = .ok plan ∧
      planExactPatch (js "abc") [⟨js "a", js ""⟩, ⟨js "b", js "x"⟩] (js "f") = .ok plan' ∧
      FoundOnce (js "abc") [⟨js "b", js "x"⟩, ⟨js "a", js ""⟩] ∧
      [⟨js "b", js "x"⟩, ⟨js "a", js ""⟩].Pairwise (SpansApart (js "abc")) ∧
      applyPlannedPatch (js "abc") plan' = applyPlannedPatch (js "abc") plan := by
  obtain ⟨hplanned, -, hperm⟩ := @patch_planned (js "abc") (js "f")
    [⟨js "b", js "x"⟩, ⟨js "a", js ""⟩] (by decide)
  obtain ⟨-, hsame⟩ := hperm [⟨js "a", js ""⟩, ⟨js "b", js "x"⟩] (.swap _ _ _)
  obtain ⟨hfound, hapart⟩ := hplanned.mp ⟨_, rfl⟩
  exact ⟨_, _, rfl, rfl, hfound, hapart, hsame _ _ rfl rfl⟩

example : (planExactPatch (js "abc") [⟨js "b", js "x"⟩, ⟨js "a", js ""⟩] (js "f")).toOption.map
    (applyPlannedPatch (js "abc")) = some (js "xc") := by decide

end Benchhand.Filesystem
