/-
Benchhand.Instructions.NormalPathTheorems — normalising a path twice.

Both packages refuse absolute paths before they drop empty and `.` segments, so
a drive that stands behind a dropped `.` gets through: `./C:/x` becomes `C:/x`,
which is absolute on Windows and refused when it is normalised again. Apart
from such inputs normalisation is a projection (`normalizeRelativePath_twice`).
-/
import Benchhand.Filesystem.PathsTheorems
import Benchhand.Instructions.OrderTheorems

namespace Benchhand.Instructions

open Text Posix
open Filesystem (Segment portable requestSegments isDrive)

/-- What a normal path is made of. -/
def Joined (path : JsString) : Prop :=
  path = dot ∨ ∃ segs, segs ≠ [] ∧ path = joinSegments segs ∧ ∀ s ∈ segs, Segment s

/-- A path that normalisation leaves as it is, and that no platform takes for an
absolute one. -/
structure Settled {ε : Type} (normalize : JsString → Except ε JsString) (path : JsString) :
    Prop where
  joined : Joined path
  relative : isAbsolute path = false ∧ win32IsAbsolute path = false
  again : normalize path = .ok path

/-- The first segment that counts looks like a drive and another one follows. -/
def LeadsWithDrive (input : JsString) : Prop :=
  ∃ first second rest, requestSegments input = first :: second :: rest ∧ isDrive first = true

/-! ## Portable segments -/

theorem joined_portable {segs : List JsString} (h : ∀ s ∈ segs, Segment s) :
    Joined (portable segs) := by
  by_cases hnil : segs = []
  · exact .inl (if_pos hnil)
  · exact .inr ⟨segs, hnil, if_neg hnil, h⟩

theorem isAbsolute_portable {segs : List JsString} (h : ∀ s ∈ segs, Plain s) :
    isAbsolute (portable segs) = false := by
  unfold portable
  split
  · decide
  · exact Filesystem.isAbsolute_joinSegments h

theorem noBackslash_portable {segs : List JsString} (h : ∀ s ∈ segs, Segment s) :
    ch '\\' ∉ portable segs :=
  Filesystem.backslash_notMem_portable.mpr fun s hs => (h s hs).noBackslash

/-- The segments of an input are no drive path exactly when they are no drive
path again. -/
theorem not_leadsWithDrive_iff {input : JsString}
    (h : ∀ s ∈ requestSegments input, Segment s) :
    ¬ LeadsWithDrive input ↔ win32IsAbsolute (portable (requestSegments input)) = false := by
  have hiff := Filesystem.portable_iff fun s hs => (h s hs).toPlain
  rw [and_iff_right (noBackslash_portable h)] at hiff
  rw [hiff]
  constructor
  · refine fun hnot => ⟨fun s hs => (h s hs).noBackslash, fun first second rest heq => ?_⟩
    exact Bool.eq_false_iff.mpr fun hdrive => hnot ⟨first, second, rest, heq, hdrive⟩
  · rintro hportable ⟨first, second, rest, heq, hdrive⟩
    rw [hportable.noDrive first second rest heq] at hdrive
    cases hdrive

/-- What both copies come to: they make the segments of the input a path, and
take such a path as it is unless it looks like one of another platform. -/
theorem settled_iff {ε : Type} {normalize : JsString → Except ε JsString} {input : JsString}
    (h : ∀ s ∈ requestSegments input, Segment s)
    (hagain : normalize (portable (requestSegments input)) =
        .ok (portable (requestSegments input)) ↔
      win32IsAbsolute (portable (requestSegments input)) = false) :
    Settled normalize (portable (requestSegments input)) ↔ ¬ LeadsWithDrive input := by
  rw [not_leadsWithDrive_iff h]
  constructor
  · exact fun hsettled => hsettled.relative.2
  · intro hwin
    exact ⟨joined_portable h, ⟨isAbsolute_portable fun s hs => (h s hs).toPlain, hwin⟩,
      hagain.mpr hwin⟩

/-! ## The copy of the filesystem package -/

/-- The path returned is made of the segments of the input. -/
theorem normalizeRelativePath_filesystem {input path : JsString} {allowRoot : Bool}
    (h : Filesystem.normalizeRelativePath input allowRoot = .ok path) :
    path = portable (requestSegments input) ∧ (∀ s ∈ requestSegments input, Segment s) ∧
      (requestSegments input = [] → allowRoot = true) := by
  rw [Filesystem.normalizeRelativePath_eq] at h
  split at h
  · cases h
  rename_i hnul
  split at h
  · cases h
  split at h
  · cases h
  rename_i hdots
  refine ⟨?_, Filesystem.requestSegments_segment hnul hdots, ?_⟩
  · split at h
    · rename_i hnil
      split at h
      · rw [portable, if_pos hnil, Except.ok.inj h]
      · cases h
    · rename_i hnil
      rw [portable, if_neg hnil, Except.ok.inj h]
  · intro hnil
    rw [if_pos hnil] at h
    split at h
    · assumption
    · cases h

theorem settled_filesystem {input path : JsString} {allowRoot : Bool}
    (h : Filesystem.normalizeRelativePath input allowRoot = .ok path) :
    Settled (fun path => Filesystem.normalizeRelativePath path allowRoot) path ↔
      ¬ LeadsWithDrive input := by
  obtain ⟨rfl, hsegments, hroot⟩ := normalizeRelativePath_filesystem h
  have hnul := Filesystem.zero_notMem_portable fun s hs => (hsegments s hs).noNul
  refine settled_iff hsegments ?_
  rw [Filesystem.normalizeRelativePath_portable (fun s hs => (hsegments s hs).toPlain) hnul hroot,
    and_iff_right (noBackslash_portable hsegments)]

/-! ## The copy of the instructions package -/

/-- A path of few enough segments is accepted again unless it looks like one of
another platform. -/
theorem normalizeRelativePath_portable {segs : List JsString} (h : ∀ s ∈ segs, Segment s)
    (hdepth : ¬ maxScopeDepth < segs.length) :
    normalizeRelativePath (portable segs) = .ok (portable segs) ↔
      win32IsAbsolute (portable segs) = false := by
  have hplain : ∀ s ∈ segs, Plain s := fun s hs => (h s hs).toPlain
  have hnul := Filesystem.zero_notMem_portable fun s hs => (h s hs).noNul
  have hdots : dotDot ∉ segs := fun hmem => (hplain _ hmem).ne_dotDot rfl
  rw [normalizeRelativePath_eq, if_neg hnul, isAbsolute_portable hplain, Bool.false_or,
    Filesystem.requestSegments_portable hplain (noBackslash_portable h), if_neg hdots,
    if_neg hdepth]
  cases hwin : win32IsAbsolute (portable segs) with
  | false => simp
  | true => simp [thrown]

theorem settled_instructions {input path : JsString} (h : normalizeRelativePath input = .ok path) :
    Settled normalizeRelativePath path ↔ ¬ LeadsWithDrive input := by
  obtain ⟨rfl, hsegments⟩ := normalizeRelativePath_ok h
  refine settled_iff hsegments (normalizeRelativePath_portable hsegments fun hdeep => ?_)
  rw [normalizeRelativePath_eq, if_pos hdeep] at h
  split at h
  · cases h
  split at h
  · cases h
  split at h
  · cases h
  · cases h

/-! ## Both copies -/

/-- Every path that either copy returns is made of plain segments and not absolute
on POSIX; it is not absolute on Windows and normalised to itself exactly when
the input does not lead with a drive. -/
theorem normalizeRelativePath_twice (input path : JsString) :
    (∀ allowRoot, Filesystem.normalizeRelativePath input allowRoot = .ok path →
      Joined path ∧ isAbsolute path = false ∧
        (Settled (fun path => Filesystem.normalizeRelativePath path allowRoot) path ↔
          ¬ LeadsWithDrive input)) ∧
    (normalizeRelativePath input = .ok path →
      Joined path ∧ isAbsolute path = false ∧
        (Settled normalizeRelativePath path ↔ ¬ LeadsWithDrive input)) := by
  constructor
  · intro allowRoot h
    obtain ⟨rfl, hsegments, -⟩ := normalizeRelativePath_filesystem h
    exact ⟨joined_portable hsegments, isAbsolute_portable fun s hs => (hsegments s hs).toPlain,
      settled_filesystem h⟩
  · intro h
    obtain ⟨rfl, hsegments⟩ := normalizeRelativePath_ok h
    exact ⟨joined_portable hsegments, isAbsolute_portable fun s hs => (hsegments s hs).toPlain,
      settled_instructions h⟩

theorem normalizeRelativePath_twice_plain :
    Settled (fun path => Filesystem.normalizeRelativePath path true) (js "a/b") ∧
      Settled normalizeRelativePath (js "a/b") := by
  have hdrive : ¬ LeadsWithDrive (js "./a\\b/") := by
    rintro ⟨first, second, rest, heq, hdrive⟩
    have hsegments : requestSegments (js "./a\\b/") = [js "a", js "b"] := by decide +kernel
    obtain ⟨rfl, -⟩ := List.cons.inj (hsegments.symm.trans heq)
    exact absurd hdrive (by decide)
  have htwice := normalizeRelativePath_twice (js "./a\\b/") (js "a/b")
  exact ⟨(htwice.1 true (by decide +kernel)).2.2.mpr hdrive,
    (htwice.2 (by decide +kernel)).2.2.mpr hdrive⟩

/-- Both copies return a path of Windows that they refuse. -/
theorem normalizeRelativePath_drive :
    ¬ ((∀ input path allowRoot, Filesystem.normalizeRelativePath input allowRoot = .ok path →
        Settled (fun path => Filesystem.normalizeRelativePath path allowRoot) path) ∧
      (∀ input path, normalizeRelativePath input = .ok path →
        Settled normalizeRelativePath path)) ∧
    Filesystem.normalizeRelativePath (js "./C:/x") false = .ok (js "C:/x") ∧
    normalizeRelativePath (js "./C:/x") = .ok (js "C:/x") ∧
    win32IsAbsolute (js "C:/x") = true ∧
    (Filesystem.normalizeRelativePath (js "C:/x") false).isOk = false ∧
    (normalizeRelativePath (js "C:/x")).isOk = false := by
  have hwin : win32IsAbsolute (js "C:/x") = true := by decide +kernel
  refine ⟨fun h => ?_, by decide +kernel, by decide +kernel, hwin, by decide +kernel,
    by decide +kernel⟩
  have hsettled := h.2 (js "./C:/x") (js "C:/x") (by decide +kernel)
  rw [hsettled.relative.2] at hwin
  cases hwin

end Benchhand.Instructions
