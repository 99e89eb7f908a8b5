/-
Benchhand.Filesystem.PatchBytesTheorems — what a patch does to the bytes of
the file.

A patch decodes the file, looks for its old texts by places between UTF-16
code units, and encodes what it makes of them. For edits without a lone
surrogate this is the same as to look for the UTF-8 of the old texts in the
bytes of the file and to replace these bytes (`patch_planned_bytes`), apart
from a byte order mark at the start, which is not written back. So a patch that
succeeds changes no byte outside the spans (`patch_bytes`).
-/
import Benchhand.Filesystem.PatchTheorems
import Benchhand.Filesystem.PathsTheorems
import Benchhand.Text.Recode

namespace Benchhand.Filesystem

open Text Posix Process

/-! ## The body of a file -/

/-- The bytes behind a byte order mark. -/
def unmarked (bytes : Bytes) : Bytes :=
  if String.utf8EncodeChar byteOrderMark <+: bytes then bytes.drop 3 else bytes

/-- The decoded text and the bytes behind the mark are the same characters. -/
theorem decoded_body {bytes : Bytes} {source : JsString} (h : decodeUtf8Fatal bytes = some source) :
    ∃ chars : List Char, utf8.encode chars = unmarked bytes ∧ utf16.encode chars = source := by
  obtain ⟨chars, hbytes, hsource⟩ := (decodeUtf8Fatal_eq_some_iff bytes source).mp h
  refine ⟨withoutMark chars, ?_, hsource⟩
  unfold unmarked withoutMark
  rw [← utf8_encode] at hbytes
  have hmark : utf8.encode [byteOrderMark] = String.utf8EncodeChar byteOrderMark :=
    List.append_nil _
  by_cases hhead : chars.head? = some byteOrderMark
  · obtain ⟨rest, rfl⟩ : ∃ rest, chars = byteOrderMark :: rest := by
      cases chars with
      | nil => simp at hhead
      | cons c rest => exact ⟨rest, by rw [Option.some.inj hhead]⟩
    have hsplit : bytes = String.utf8EncodeChar byteOrderMark ++ utf8.encode rest := hbytes
    rw [if_pos hhead, hsplit, if_pos (List.prefix_append _ _)]
    rfl
  · rw [if_neg hhead, if_neg, hbytes]
    rintro ⟨rest, hrest⟩
    obtain ⟨others, rfl, -⟩ := utf8.encode_prefix [byteOrderMark] chars rest
      (by rw [hmark, hrest, hbytes])
    exact hhead rfl

/-! ## Edits as replacements -/

/-- The splices of the edits among the code units. -/
def UnitSpans (source : JsString) (edits : List PatchEdit) (spans : List (Splice UInt16)) : Prop :=
  List.Forall₂ (fun edit s => s.Replaces source edit.oldText edit.newText) edits spans

/-- The splices of the edits among the bytes. -/
def ByteSpans (body : Bytes) (edits : List PatchEdit) (spans : List (Splice UInt8)) : Prop :=
  List.Forall₂ (fun edit s => s.Replaces body (encodeUtf8 edit.oldText) (encodeUtf8 edit.newText))
    edits spans

/-- The splices of the edits among the characters. -/
def CharSpans (chars : List Char) (edits : List PatchEdit) (spans : List (Splice Char)) : Prop :=
  List.Forall₂ (fun edit s => s.Replaces chars (scalars edit.oldText) (scalars edit.newText))
    edits spans

/-- No surrogate stands alone in the texts of an edit. -/
def PatchEdit.WellFormed (edit : PatchEdit) : Prop :=
  Text.WellFormed edit.oldText ∧ Text.WellFormed edit.newText

section
variable {source path : JsString} {edits : List PatchEdit} {chars : List Char}

theorem scalars_ne_nil {s : JsString} (h : s ≠ []) : scalars s ≠ [] := by
  intro hnil
  have hne := toWellFormed_ne_nil h
  rw [toWellFormed, hnil] at hne
  exact hne rfl

theorem byteSpans_iff (hold : ∀ edit ∈ edits, edit.oldText ≠ []) {spans : List (Splice UInt8)} :
    ByteSpans (utf8.encode chars) edits spans ↔
      ∃ ts, CharSpans chars edits ts ∧ ts.map (utf8.splice chars) = spans :=
  utf8.forall₂_replaces_iff chars fun edit hmem => scalars_ne_nil (hold edit hmem)

theorem unitSpans_iff (hold : ∀ edit ∈ edits, edit.oldText ≠ [])
    (hwell : ∀ edit ∈ edits, edit.WellFormed) {spans : List (Splice UInt16)} :
    UnitSpans (utf16.encode chars) edits spans ↔
      ∃ ts, CharSpans chars edits ts ∧ ts.map (utf16.splice chars) = spans := by
  refine Iff.trans ?_
    (utf16.forall₂_replaces_iff chars fun edit hmem => scalars_ne_nil (hold edit hmem))
  unfold UnitSpans
  rw [List.forall₂_iff_zip, List.forall₂_iff_zip]
  refine and_congr_right fun _ => forall_congr' fun edit => forall_congr' fun s =>
    imp_congr_right fun hmem => ?_
  have hedit := hwell edit (List.of_mem_zip hmem).1
  rw [utf16_encode (scalars edit.oldText), utf16_encode (scalars edit.newText),
    hedit.1.flatMap_units_scalars, hedit.2.flatMap_units_scalars]

theorem within_charSpans (hold : ∀ edit ∈ edits, edit.oldText ≠ []) {ts : List (Splice Char)}
    (h : CharSpans chars edits ts) : ∀ t ∈ ts, t.Within chars.length := by
  intro t ht
  obtain ⟨k, hk, rfl⟩ := List.getElem_of_mem ht
  have hlength := h.length_eq
  have hspan := h.get (by omega) hk
  exact hspan.within (scalars_ne_nil (hold _ (List.getElem_mem _)))

/-! ## Planning -/

theorem unitSpans_spanOf (hold : ∀ edit ∈ edits, edit.oldText ≠ [])
    (hfound : FoundOnce source edits) : UnitSpans source edits (edits.map (spanOf source)) := by
  rw [UnitSpans, List.forall₂_map_right_iff, List.forall₂_same]
  intro edit hmem
  obtain ⟨hstart, hstop, htext⟩ := spanOf_spanOf hold hfound hmem
  refine ⟨fun i => ⟨fun hi => (hfound edit hmem).unique hi hstart, ?_⟩, hstop, htext⟩
  rintro rfl
  exact hstart

theorem UnitSpans.unique {spans spans' : List (Splice UInt16)} (h : UnitSpans source edits spans)
    (h' : UnitSpans source edits spans') : spans = spans' :=
  List.right_unique_forall₂' (fun _ _ _ hs ht => hs.unique ht) h h'

theorem UnitSpans.foundOnce {spans : List (Splice UInt16)} (h : UnitSpans source edits spans) :
    FoundOnce source edits := by
  intro edit hmem
  obtain ⟨k, hk, rfl⟩ := List.getElem_of_mem hmem
  have hlength := h.length_eq
  have hspan := h.get hk (by omega)
  exact ⟨_, (hspan.only _).mpr rfl, fun i hi => (hspan.only i).mp hi⟩

/-- A plan is made when the edits are replacements that lie apart. -/
theorem planned_iff_unitSpans (hold : ∀ edit ∈ edits, edit.oldText ≠ []) :
    (∃ plan, planExactPatch source edits path = .ok plan) ↔
      ∃ spans, UnitSpans source edits spans ∧ spans.Pairwise Splice.Apart := by
  constructor
  · rintro ⟨plan, hplan⟩
    obtain ⟨hfound, hapart, -⟩ := (planExactPatch_ok_iff hold).mp hplan
    exact ⟨_, unitSpans_spanOf hold hfound, (spansApart_iff hold hfound).mp hapart⟩
  · rintro ⟨spans, hspans, hapart⟩
    have hfound := hspans.foundOnce
    rw [hspans.unique (unitSpans_spanOf hold hfound)] at hapart
    exact ⟨_, (planExactPatch_ok_iff hold).mpr
      ⟨hfound, (spansApart_iff hold hfound).mpr hapart, rfl⟩⟩

theorem applyPlannedPatch_eq (hold : ∀ edit ∈ edits, edit.oldText ≠ [])
    {plan : List PlannedPatchEdit} (hplan : planExactPatch source edits path = .ok plan)
    {spans : List (Splice UInt16)} (hspans : UnitSpans source edits spans) :
    applyPlannedPatch source plan = spliced source spans := by
  obtain ⟨hfound, hapart, rfl⟩ := (planExactPatch_ok_iff hold).mp hplan
  have hperm := map_splice_perm source edits
  have horder := (inOrder_iff hold hfound).mpr hapart
  rw [hspans.unique (unitSpans_spanOf hold hfound), applyPlannedPatch, applyFromCursor_eq,
    spliceFrom_eq horder]
  · exact spliced_perm hperm horder.apart
  · exact fun s hs => within_spanOf hold hfound s (hperm.mem_iff.mp hs)

theorem planned_length (hold : ∀ edit ∈ edits, edit.oldText ≠ []) {plan : List PlannedPatchEdit}
    (hplan : planExactPatch source edits path = .ok plan) : plan.length = edits.length := by
  obtain ⟨-, -, rfl⟩ := (planExactPatch_ok_iff hold).mp hplan
  rw [(orderedPlan_perm source edits).length_eq, plannedEdits, List.length_map, List.length_zipIdx]

section
variable {bytes : Bytes} (hdecode : decodeUtf8Fatal bytes = some source)
  (hold : ∀ edit ∈ edits, edit.oldText ≠ []) (hwell : ∀ edit ∈ edits, edit.WellFormed)
include hdecode hold hwell

/-- The bytes decide whether a plan is made. -/
theorem planned_iff_byteSpans : (∃ plan, planExactPatch source edits path = .ok plan) ↔
    ∃ spans, ByteSpans (unmarked bytes) edits spans ∧ spans.Pairwise Splice.Apart := by
  obtain ⟨chars, hbody, rfl⟩ := decoded_body hdecode
  rw [← hbody, planned_iff_unitSpans hold]
  constructor
  · rintro ⟨spans, hspans, hapart⟩
    obtain ⟨ts, hts, rfl⟩ := (unitSpans_iff hold hwell).mp hspans
    have hwithin := within_charSpans hold hts
    exact ⟨_, (byteSpans_iff hold).mpr ⟨ts, hts, rfl⟩,
      (utf8.pairwise_apart_splice chars hwithin).mpr
        ((utf16.pairwise_apart_splice chars hwithin).mp hapart)⟩
  · rintro ⟨spans, hspans, hapart⟩
    obtain ⟨ts, hts, rfl⟩ := (byteSpans_iff hold).mp hspans
    have hwithin := within_charSpans hold hts
    exact ⟨_, (unitSpans_iff hold hwell).mpr ⟨ts, hts, rfl⟩,
      (utf16.pairwise_apart_splice chars hwithin).mpr
        ((utf8.pairwise_apart_splice chars hwithin).mp hapart)⟩

/-- The bytes of the patched text. -/
theorem encodeUtf8_applyPlannedPatch {plan : List PlannedPatchEdit}
    {spans : List (Splice UInt8)} (hplan : planExactPatch source edits path = .ok plan)
    (hspans : ByteSpans (unmarked bytes) edits spans) :
    encodeUtf8 (applyPlannedPatch source plan) = spliced (unmarked bytes) spans := by
  obtain ⟨chars, hbody, rfl⟩ := decoded_body hdecode
  rw [← hbody] at hspans ⊢
  obtain ⟨ts, hts, rfl⟩ := (byteSpans_iff hold).mp hspans
  have hunits := (unitSpans_iff hold hwell).mpr ⟨ts, hts, rfl⟩
  have hwithin := within_charSpans hold hts
  have hapart : ts.Pairwise Splice.Apart := by
    obtain ⟨spans', hspans', hapart'⟩ := (planned_iff_unitSpans hold).mp ⟨plan, hplan⟩
    rw [hspans'.unique hunits] at hapart'
    exact (utf16.pairwise_apart_splice chars hwithin).mp hapart'
  calc encodeUtf8 (applyPlannedPatch (utf16.encode chars) plan)
      = encodeUtf8 (utf16.encode (spliced chars ts)) := by
        rw [applyPlannedPatch_eq hold hplan hunits, utf16.encode_spliced chars hapart hwithin]
    _ = utf8.encode (spliced chars ts) := encodeUtf8_flatMap_units _
    _ = spliced (utf8.encode chars) (ts.map (utf8.splice chars)) :=
        utf8.encode_spliced chars hapart hwithin

/-- Planning looks at code units, but it is planning over the bytes behind the
byte order mark: it succeeds when the UTF-8 of each old text stands at one
place of them and no two of these places overlap, and the plan replaces these
bytes by the UTF-8 of the new texts. -/
theorem patch_planned_bytes :
    ((∃ plan, planExactPatch source edits path = .ok plan) ↔
      ∃ spans, ByteSpans (unmarked bytes) edits spans ∧ spans.Pairwise Splice.Apart) ∧
    ∀ plan spans, planExactPatch source edits path = .ok plan →
      ByteSpans (unmarked bytes) edits spans →
        encodeUtf8 (applyPlannedPatch source plan) = spliced (unmarked bytes) spans :=
  ⟨planned_iff_byteSpans hdecode hold hwell,
    fun _ _ hplan hspans => encodeUtf8_applyPlannedPatch hdecode hold hwell hplan hspans⟩

end

end

/-- The edit of a character outside the basic plane. -/
theorem patch_planned_bytes_astral :
    (∃ plan, planExactPatch (js "é😀") [⟨js "😀", js "z"⟩] (js "f") = .ok plan) ↔
      ∃ spans, ByteSpans (unmarked (encodeUtf8 (js "é😀"))) [⟨js "😀", js "z"⟩] spans ∧
        spans.Pairwise Splice.Apart :=
  (patch_planned_bytes ((decodeUtf8Fatal_eq_some_iff _ _).mpr
      ⟨"é😀".toList, encodeUtf8_flatMap_units _, by decide⟩)
    (by decide) fun edit hmem =>
      List.mem_singleton.mp hmem ▸ ⟨wellFormed_js _, wellFormed_js _⟩).1

/-! ## The request -/

theorem normalizePatchEdit_ok_iff {edit edit' : PatchEdit} {index : Nat} :
    normalizePatchEdit edit index = .ok edit' ↔
      (edit.oldText ≠ [] ∧ (0 : UInt16) ∉ edit.oldText ∧ (0 : UInt16) ∉ edit.newText) ∧
        edit' = edit := by
  unfold normalizePatchEdit
  split
  · rename_i hbad
    refine iff_of_false (fun h => by cases h) ?_
    rintro ⟨⟨hold, hnul, hnul'⟩, -⟩
    exact hbad.elim hold fun h => h.elim hnul hnul'
  · rename_i hgood
    simp only [not_or] at hgood
    rw [and_iff_right hgood]
    exact ⟨fun h => (Except.ok.inj h).symm, fun h => by rw [h]⟩

/-- Edits that are accepted are taken as they come. -/
theorem normalizePatchEdits_ok {value edits : List PatchEdit}
    (h : normalizePatchEdits value = .ok edits) :
    edits = value ∧ ∀ edit ∈ edits, edit.oldText ≠ [] := by
  unfold normalizePatchEdits at h
  split at h
  · cases h
  · obtain ⟨hgood, rfl⟩ := (mapM_ok_iff fun (p : PatchEdit × Nat) _ _ =>
      normalizePatchEdit_ok_iff).mp h
    have hsame : (value.zipIdx.map fun p => p.1) = value := List.zipIdx_map_fst 0 value
    refine ⟨hsame, fun edit hmem => ?_⟩
    rw [hsame] at hmem
    obtain ⟨k, hk⟩ := List.mem_iff_getElem?.mp hmem
    exact (hgood (edit, k) (List.mk_mem_zipIdx_iff_getElem?.mpr hk)).1

theorem normalizeRequiredSha256_ok {value sha256 : JsString} {name : String}
    (h : normalizeRequiredSha256 value name = .ok sha256) : sha256 = lowerHex value := by
  unfold normalizeRequiredSha256 at h
  split at h
  · exact (Except.ok.inj h).symm
  · cases h

/-! ## A run -/

section
variable {outside : Nat → Turn} {service : Service} {v : Volume}

theorem perform_readFile {handle : Handle} {bytes : Bytes} {mode : Mode}
    (hnode : handle.node = .file bytes mode) : perform (.readFile handle) v = (.ok bytes, v) := by
  simp only [perform, Handle.bytes, hnode]
  rfl

variable (halone : Alone outside)
include halone

/-- The whole file that a path leads to. -/
theorem yields_readWholeFile {path portablePath : JsString} {size : Nat} {place : Path}
    {bytes : Bytes} {mode : Mode}
    (hplace : ∀ place', v.locate true path = .ok place' → place' = place)
    (hnode : v.node? place = some (.file bytes mode)) {Q : Bytes → Volume → Prop} (hQ : Q bytes v) :
    Yields outside (readWholeFile path portablePath size) Q v := by
  unfold readWholeFile
  refine yields_bind (yields_failWhen fun _ => ?_)
  refine yields_bind (yields_mapError ?_)
  refine yields_call halone fun handle v' hopen => ?_
  obtain ⟨rfl, hlocate, hfound⟩ := perform_openRead.mp hopen
  have hhandle : handle.node = .file bytes mode := by
    rw [hplace _ hlocate, hnode] at hfound
    exact (Option.some.inj hfound).symm
  refine yields_tryFinally (yields_bind ?_)
  refine yields_call halone fun data v' hread => ?_
  cases (perform_readFile hhandle).symm.trans hread
  refine yields_bind (yields_failWhen fun _ => yields_pure ?_)
  refine yields_call halone fun _ v' hclose => ?_
  obtain rfl : v = v' := congrArg Prod.snd hclose
  exact hQ

variable (hhonest : Honest outside)
include hhonest

/-- The new content comes from the file at the place and from the plan. -/
theorem yields_patchedContent {options : PatchOptions} {dir : Path} (hdir : v.Stands dir)
    {name : JsString} (hname : Plain name) (htarget : options.target = target dir [name])
    {Q : Bytes × Nat → Volume → Prop}
    (hQ : ∀ old mode source plan, Name.size (scalars name) ≤ nameMax →
      v.node? (dir ++ [scalars name]) = some (.file old mode) →
      service.sha256 old = options.expectedSha256 → decodeUtf8Fatal old = some source →
      planExactPatch source options.edits options.path = .ok plan →
      Q (encodeUtf8 (applyPlannedPatch source plan), plan.length) v) :
    Yields outside (service.patchedContent options) Q v := by
  have hcomponents : components (scalars (target dir [name])) = dir ++ [scalars name] :=
    components_target hdir.plain fun s hs => List.mem_singleton.mp hs ▸ hname
  obtain ⟨jump, hjump⟩ := Volume.locate_components hdir hcomponents true
  unfold Service.patchedContent
  rw [htarget]
  refine yields_bind (yields_inspectWriteTarget halone hhonest hdir hname
    fun initial hsize hinitial => ?_)
  refine yields_bind (yields_ofExcept fun _ hpre => ?_)
  refine yields_bind (yields_failWhen fun _ => ?_)
  cases hinitial with
  | missing hmissing =>
      unfold enforcePatchHashPrecondition at hpre
      cases hpre
  | @file old mode hfile =>
      have hplace : ∀ place', v.locate true (target dir [name]) = .ok place' →
          place' = dir ++ [scalars name] := by
        intro place' hlocate
        rw [hjump, Volume.steps_last hname.name.ne_dotDot hsize (by simp [hfile])] at hlocate
        exact (Except.ok.inj hlocate).symm
      refine yields_bind (yields_readWholeFile halone hplace hfile ?_)
      refine yields_bind (yields_ofExcept fun _ hsha => ?_)
      refine yields_bind (yields_failWhen fun _ => ?_)
      refine yields_bind ?_
      unfold decodeUtf8
      split
      · rename_i source hdecode
        refine yields_pure (yields_bind (yields_ofExcept fun plan hplan => ?_))
        refine yields_bind (yields_failWhen fun _ => yields_pure ?_)
        refine hQ old mode source plan hsize hfile ?_ hdecode hplan
        by_contra hne
        rw [if_pos hne] at hsha
        cases hsha
      · exact yields_throw _

/-- What a patch that succeeds has done. -/
structure PatchedBytes (service : Service) (request : PatchRequest) (v v' : Volume)
    (result : PatchResult) (place : Path) (old new : Bytes) : Prop where
  /-- The path led to the file before, and leads there now. -/
  opened : ∃ mode, service.Opens v request.workspaceId request.path result.path
    ⟨place, .file old mode⟩
  opens : ∃ mode, service.Opens v' request.workspaceId request.path result.path
    ⟨place, .file new mode⟩
  expected : service.sha256 old = lowerHex request.expectedSha256
  /-- The bytes behind the mark, with the spans of all edits replaced at once. -/
  replaced : ∃ spans, ByteSpans (unmarked old) request.edits spans ∧
    spans.Pairwise Splice.Apart ∧ new = spliced (unmarked old) spans
  previousSha256 : result.previousSha256 = service.sha256 old
  sha256 : result.sha256 = service.sha256 new
  editsApplied : result.editsApplied = request.edits.length
  bytesWritten : result.bytesWritten = new.length

theorem yields_patch {uuid : JsString} {request : PatchRequest}
    (hwell : ∀ edit ∈ request.edits, edit.WellFormed) :
    Yields outside (service.patch uuid request)
      (fun result v' => ∃ place old new, PatchedBytes service request v v' result place old new)
      v := by
  unfold Service.patch Service.preparePatch
  refine yields_bind (yields_bind (yields_ofExcept fun expected hexpected => ?_))
  refine yields_bind (yields_ofExcept fun edits hedits => ?_)
  refine yields_bind (yields_accessWorkspace halone fun root hroot => ?_)
  refine yields_bind (yields_ofExcept fun path hpath => ?_)
  refine yields_bind (yields_writeTarget halone hroot hpath fun segs dir name haims hsegs => ?_)
  refine yields_pure (yields_bind ?_)
  refine yields_patchedContent halone hhonest haims.stands haims.plain_name rfl
    fun old mode source plan hsize hfile hsha hdecode hplan => ?_
  obtain ⟨rfl, hold⟩ := normalizePatchEdits_ok hedits
  obtain rfl := normalizeRequiredSha256_ok hexpected
  refine yields_bind (yields_tryCatch ?_ fun e v' => yields_patchFailure)
  refine yields_writeAtomic halone hhonest haims.stands haims.plain_name rfl
    fun write v' _ hwritten => yields_pure ?_
  obtain ⟨mode', hfile'⟩ := hwritten.file
  obtain ⟨hroot₀, hleads₀⟩ := haims.leads_entry hsize (Volume.KeepsWays.refl v) hfile (by simp)
  obtain ⟨hroot', hleads'⟩ := haims.leads_entry hsize hwritten.ways hfile' (by simp)
  obtain ⟨spans, hspans, hapart⟩ := (planned_iff_byteSpans hdecode hold hwell).mp ⟨plan, hplan⟩
  exact ⟨dir ++ [scalars name], old, _,
    { opened := ⟨mode, root, _, hroot₀, hpath, hsegs, haims.plain, hleads₀, hfile⟩
      opens := ⟨mode', root, _, hroot', hpath, hsegs, haims.plain, hleads', hfile'⟩
      expected := hsha
      replaced := ⟨spans, hspans, hapart,
        encodeUtf8_applyPlannedPatch hdecode hold hwell hplan hspans⟩
      previousSha256 := hsha.symm
      sha256 := hwritten.sha256
      editsApplied := planned_length hold hplan
      bytesWritten := hwritten.bytesWritten }⟩

/-- A patch that succeeds, whatever calls failed in it: every old text stands at
one place of the file, these places do not overlap, and the new file is the old
one behind its byte order mark with just these places replaced. -/
theorem patch_bytes {uuid : JsString} {request : PatchRequest}
    (hwell : ∀ edit ∈ request.edits, edit.WellFormed) {w w' : World} {result : PatchResult}
    (hrun : Prog.run (answer outside) (service.patch uuid request).run w = (.ok result, w')) :
    ∃ place old new, PatchedBytes service request w.vol w'.vol result place old new :=
  (yields_patch halone hhonest hwell).of_run hrun

end

def markedSha256 : JsString :=
  js "19348dabd659e7ff48c45a90b2d6b9081772a38997089b6a8323defa324b7c09"

def patchedSha256 : JsString :=
  js "636e12c983743af6a77d4f38b6e6251d9da9572a6b914ec92c606e1799fc4177"

/-- The workspace with the digests of the two contents below. -/
def patchWorkspace : Service :=
  { oneWorkspace with
    sha256 := fun bytes =>
      if bytes = encodeUtf8 (0xFEFF :: js "é😀b") then markedSha256 else patchedSha256 }

/-- Two edits, the second of which stands first in the file. -/
def patchMarked : PatchRequest :=
  ⟨js "ws", js "a", markedSha256, [⟨js "b", js "é"⟩, ⟨js "😀", js "z"⟩]⟩

/-- The patch of a file that starts with a byte order mark. -/
def patchedMarked : Except Thrown PatchResult × World :=
  Prog.run (answer still) (patchWorkspace.patch (js "u") patchMarked).run
    ⟨oneFile (encodeUtf8 (0xFEFF :: js "é😀b")), []⟩

theorem patch_bytes_marked : ∃ result place old new,
    patchedMarked.1 = .ok result ∧
      PatchedBytes patchWorkspace patchMarked (oneFile (encodeUtf8 (0xFEFF :: js "é😀b")))
        patchedMarked.2.vol result place old new := by
  have hresult : patchedMarked.1 = .ok ⟨js "a", markedSha256, patchedSha256, 2, 5,
      .fileAndDirectory⟩ := by
    decide +kernel
  have hrun : patchedMarked = (.ok ⟨js "a", markedSha256, patchedSha256, 2, 5,
      .fileAndDirectory⟩, patchedMarked.2) := by
    rw [← hresult]
  have hwell : ∀ edit ∈ patchMarked.edits, edit.WellFormed := by
    intro edit hmem
    simp only [patchMarked, List.mem_cons, List.not_mem_nil, or_false] at hmem
    obtain rfl | rfl := hmem
    · exact ⟨wellFormed_js _, wellFormed_js _⟩
    · exact ⟨wellFormed_js _, wellFormed_js _⟩
  obtain ⟨place, old, new, h⟩ := patch_bytes alone_still honest_still hwell hrun
  exact ⟨_, place, old, new, hresult, h⟩

end Benchhand.Filesystem
