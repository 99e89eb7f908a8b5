/-
Benchhand.Filesystem.ContainmentTheorems — operations stay inside the root.

A call of an operation may open, list, create, replace or remove the object at
a place, or read and write through an open file (`Touches`). Whatever links
there are in the tree and whichever calls fail, every such place is at or below
the root of the workspace, and there is none unless the path of the request
itself leads into it (`operations_contained`).
-/
import Benchhand.Filesystem.MutationTheorems
import Benchhand.Filesystem.PathsTheorems

namespace Benchhand.Filesystem

open Text Posix Process

/-! ## Touched places -/

/-- The path strings whose objects a call opens or lists, behind any link. -/
def followed : Call → List JsString
  | .openRead p => [p]
  | .readdir p => [p]
  | _ => []

/-- The path strings whose directory entries a call makes, replaces or
removes. -/
def entered : Call → List JsString
  | .openExclusive p _ => [p]
  | .link existing new => [existing, new]
  | .rename old new => [old, new]
  | .rm p => [p]
  | _ => []

/-- The open files whose content a call reads or changes. -/
def opened : Call → List Handle
  | .read handle _ _ => [handle]
  | .readFile handle => [handle]
  | .chmod handle _ => [handle]
  | .writeFile handle _ => [handle]
  | _ => []

/-- A call has to do with the object at a place, and not just with its name or
its metadata. -/
def Touches (e : Event) (place : Path) : Prop :=
  (∃ p ∈ followed e.call, e.before.locate true p = .ok place) ∨
    (∃ p ∈ entered e.call, e.before.locate false p = .ok place) ∨
    ∃ handle ∈ opened e.call, handle.path = place

/-- The place is at or below one of the roots. -/
def Covers (roots : Path → Prop) (place : Path) : Prop := ∃ root, roots root ∧ root <+: place

/-- All that was touched is covered. -/
def Within (roots : Path → Prop) (log : List Event) : Prop :=
  ∀ e ∈ log, ∀ place, Touches e place → Covers roots place

/-- The path of the request leads to a place in the workspace; for a write or a
patch it is the directory of the target that has to be there. -/
def Operation.Finds (op : Operation) (v : Volume) (root : Path) : Prop :=
  match op with
  | .write _ _ | .patch _ _ => ∃ segs dir name,
      normalizeRelativePath op.path.1 op.path.2 = .ok (portable (segs ++ [name])) ∧
      Leads v root segs dir ∧ v.Stands dir
  | _ => ∃ segs place, normalizeRelativePath op.path.1 op.path.2 = .ok (portable segs) ∧
      Leads v root segs place

/-- The root that an operation may touch things below. -/
def Operation.Roots (op : Operation) (service : Service) (v : Volume) (root : Path) : Prop :=
  service.Root v op.workspaceId root ∧ op.Finds v root

theorem Covers.trans {roots : Path → Prop} {place below : Path} (h : Covers roots place)
    (hbelow : place <+: below) : Covers roots below := by
  obtain ⟨root, hroot, hprefix⟩ := h
  exact ⟨root, hroot, hprefix.trans hbelow⟩

/-! ## Calls that change nothing -/

/-- On the volume, the call touches only what is covered. -/
structure Inside (roots : Path → Prop) (v : Volume) (c : Call) : Prop where
  readOnly : ReadOnly c
  follows : ∀ p ∈ followed c, ∀ place, v.locate true p = .ok place → Covers roots place
  opens : ∀ handle ∈ opened c, Covers roots handle.path

/-- Nothing has been changed, and what was touched is covered. -/
structure Calm (roots : Path → Prop) (v : Volume) (w : World) : Prop where
  vol : w.vol = v
  within : Within roots w.log

section
variable {roots : Path → Prop} {v : Volume}

theorem entered_of_readOnly {c : Call} (hc : ReadOnly c) : entered c = [] := by
  cases c <;> first | rfl | exact absurd hc id

theorem inside_lookup {c : Call} (hc : Lookup c) : Inside roots v c := by
  cases c with
  | realpath p => exact ⟨trivial, by simp [followed], by simp [opened]⟩
  | lstat p => exact ⟨trivial, by simp [followed], by simp [opened]⟩
  | _ => exact absurd hc id

theorem inside_openRead {place : Path} (hlands : v.Lands true place) (h : Covers roots place) :
    Inside roots v (.openRead place.text) := by
  refine ⟨trivial, fun p hp place' hlocate => ?_, by simp [opened]⟩
  rw [List.mem_singleton.mp hp, Volume.locate_text hlands] at hlocate
  exact Except.ok.inj hlocate ▸ h

theorem inside_readdir {place : Path} (hlands : v.Lands true place) (h : Covers roots place) :
    Inside roots v (.readdir place.text) := by
  refine ⟨trivial, fun p hp place' hlocate => ?_, by simp [opened]⟩
  rw [List.mem_singleton.mp hp, Volume.locate_text hlands] at hlocate
  exact Except.ok.inj hlocate ▸ h

theorem inside_stat (handle : Handle) : Inside roots v (.stat handle) :=
  ⟨trivial, by simp [followed], by simp [opened]⟩

theorem inside_close (handle : Handle) : Inside roots v (.close handle) :=
  ⟨trivial, by simp [followed], by simp [opened]⟩

theorem inside_read {handle : Handle} (h : Covers roots handle.path) (position length : Nat) :
    Inside roots v (.read handle position length) :=
  ⟨trivial, by simp [followed], fun _ hhandle => List.mem_singleton.mp hhandle ▸ h⟩

theorem inside_readFile {handle : Handle} (h : Covers roots handle.path) :
    Inside roots v (.readFile handle) :=
  ⟨trivial, by simp [followed], fun _ hhandle => List.mem_singleton.mp hhandle ▸ h⟩

theorem Inside.covers {e : Event} (h : Inside roots e.before e.call) {place : Path}
    (htouches : Touches e place) : Covers roots place := by
  obtain ⟨p, hp, hlocate⟩ | ⟨p, hp, -⟩ | ⟨handle, hhandle, rfl⟩ := htouches
  · exact h.follows p hp place hlocate
  · rw [entered_of_readOnly h.readOnly] at hp
    exact absurd hp List.not_mem_nil
  · exact h.opens handle hhandle

theorem Within.cons {log : List Event} {e : Event} (h : Within roots log)
    (he : ∀ place, Touches e place → Covers roots place) : Within roots (e :: log) :=
  List.forall_mem_cons.mpr ⟨he, h⟩

theorem Calm.start (v : Volume) : Calm roots v ⟨v, []⟩ := ⟨rfl, List.forall_mem_nil _⟩

variable {outside : Nat → Turn} (halone : Alone outside) {w : World} {α : Type}
include halone

theorem Calm.event (h : Calm roots v w) {n : Nat} {e : Event} (htook : Took (outside n) w.vol e)
    (hin : Inside roots v e.call) :
    e.before = v ∧ e.after = v ∧ Calm roots v ⟨e.after, e :: w.log⟩ := by
  have hbefore : e.before = v := by rw [htook.before, halone n, h.vol]
  have hafter : e.after = v := (htook.readOnly hin.readOnly).trans hbefore
  exact ⟨hbefore, hafter, hafter, h.within.cons fun _ ht => (hbefore.symm ▸ hin).covers ht⟩

/-- A function that only makes such calls. -/
theorem wp_calm {p : Async α} (hp : Async.Uses (Inside roots v) p) (h : Calm roots v w) :
    Async.Wp (answer outside) p (fun _ => Calm roots v) (fun _ => Calm roots v) w :=
  wp_uses hp (fun _ _ _ hc hI hcall htook => (hI.event halone htook (hcall ▸ hc)).2.2) h

/-- One such call, with its answer. -/
theorem wp_inside {c : Call} (hc : Inside roots v c) (h : Calm roots v w) :
    Async.Wp (answer outside) (call c)
      (fun a w' => perform c v = (.ok a, v) ∧ Calm roots v w') (fun _ => Calm roots v) w := by
  refine wp_call ?_ ?_
  · intro a e hperform hcall _ htook
    obtain ⟨hbefore, hafter, hcalm⟩ := h.event halone htook (hcall ▸ hc)
    rw [hbefore, hafter] at hperform
    exact ⟨hperform, hcalm⟩
  · intro _ e _ hcall _ htook
    exact (h.event halone htook (hcall ▸ hc)).2.2

/-- Opening a file that is inside. -/
theorem wp_opened {path : JsString} (hin : Inside roots v (.openRead path)) (h : Calm roots v w) :
    Async.Wp (answer outside) (openRead path)
      (fun handle w' => Covers roots handle.path ∧ Calm roots v w') (fun _ => Calm roots v) w := by
  refine (wp_inside halone hin h).mono (fun handle w' h' => ⟨?_, h'.2⟩) fun _ _ h' => h'
  obtain ⟨-, hlocate, -⟩ := perform_openRead.mp h'.1
  exact hin.follows path (List.mem_singleton.mpr rfl) _ hlocate

/-- A function that only looks, with what it resolves with. -/
theorem wp_lookups {p : Async α} {Q : α → Volume → Prop} (hp : Async.Uses Lookup p)
    (hQ : Yields outside p Q v) (h : Calm roots v w) :
    Async.Wp (answer outside) p (fun a w' => Q a v ∧ Calm roots v w') (fun _ => Calm roots v)
      w := by
  refine ((hQ.wp w h.vol).and (wp_calm halone (Prog.Uses.mono (fun _ => inside_lookup) hp) h)).mono
    (fun a w' hw => ?_) fun _ _ hw => hw.2
  rw [hw.2.vol] at hw
  exact hw

end

/-! ## Reads, lists and searches -/

section
variable {service : Service} {v : Volume} {id : JsString} {outside : Nat → Turn}
  (halone : Alone outside) {roots : Path → Prop} {w : World} {α : Type}
include halone

attribute [local irreducible] Async.Wp

theorem wp_accessed (h : Calm roots v w) : Async.Wp (answer outside) (service.accessWorkspace id)
    (fun a w' => (∃ root, service.Root v id root ∧ a = root.text) ∧ Calm roots v w')
    (fun _ => Calm roots v) w :=
  wp_lookups halone (uses_accessWorkspace service id)
    (yields_accessWorkspace (Q := fun a _ => ∃ root, service.Root v id root ∧ a = root.text) halone
      fun root hroot => ⟨root, hroot, rfl⟩) h

theorem wp_resolved {root : Path} {segs : List JsString} (hroot : root.Plain)
    (hsegs : ∀ s ∈ segs, Plain s) (h : Calm roots v w) :
    Async.Wp (answer outside) (resolveExistingPath root.text (portable segs))
      (fun a w' => (∃ place, Leads v root segs place ∧ a = place.text) ∧ Calm roots v w')
      (fun _ => Calm roots v) w :=
  wp_lookups halone (uses_resolveExistingPath _ _)
    (yields_resolveExistingPath (Q := fun a _ => ∃ place, Leads v root segs place ∧ a = place.text)
      halone hroot hsegs fun place hleads => ⟨place, hleads, rfl⟩) h

/-- What an operation that changes nothing ends with. -/
theorem wp_closing {p : Async α} {handle : Handle} (hp : Async.Uses (Inside roots v) p)
    (h : Calm roots v w) :
    Async.Wp (answer outside) (tryFinally p (Handle.close handle)) (fun _ => Calm roots v)
      (fun _ => Calm roots v) w :=
  wp_calm halone (Async.uses_tryFinally hp (Async.uses_request (inside_close handle))) h

end

section
variable {v : Volume} {roots : Path → Prop}

theorem uses_decodeUtf8 {allowed : Call → Prop} (data : Bytes) :
    Async.Uses allowed (decodeUtf8 data) := by
  unfold decodeUtf8
  split
  · exact Async.uses_pure
  · exact Async.uses_throw

theorem uses_readRange {handle : Handle} (h : Covers roots handle.path) (path : JsString)
    (offset maxBytes : Nat) :
    Async.Uses (Inside roots v) (readRange handle path offset maxBytes) := by
  unfold readRange
  refine Async.uses_bind (Async.uses_request (inside_stat handle)) fun stats => ?_
  refine Async.uses_bind (uses_failWhen _ _ _ _) fun _ => ?_
  refine Async.uses_bind (uses_failWhen _ _ _ _) fun _ => ?_
  refine Async.uses_bind ?_ fun data => Async.uses_bind ?_ fun content => Async.uses_pure
  · split
    · exact Async.uses_pure
    · exact Async.uses_request (inside_read h _ _)
  · split
    · exact Async.uses_map (uses_decodeUtf8 data)
    · exact Async.uses_pure

theorem uses_searchOpenFile (options : SearchOptions) (query relativePath : JsString)
    {handle : Handle} (h : Covers roots handle.path) (state : SearchState) :
    Async.Uses (Inside roots v) (searchOpenFile options query relativePath handle state) := by
  unfold searchOpenFile
  refine Async.uses_bind (Async.uses_request (inside_stat handle)) fun stats => ?_
  split
  · exact Async.uses_pure
  · split
    · exact Async.uses_pure
    · refine Async.uses_bind ?_ fun data => ?_
      · split
        · exact Async.uses_pure
        · exact Async.uses_request (inside_read h _ _)
      · split
        · exact Async.uses_pure
        · exact Async.uses_bind (uses_decodeUtf8 data) fun _ => Async.uses_pure

end

section
variable {service : Service} {v : Volume} {outside : Nat → Turn} (halone : Alone outside)
  {w : World}
include halone

attribute [local irreducible] Async.Wp

theorem wp_read_contained (request : ReadRequest)
    (h : Calm ((Operation.read request).Roots service v) v w) :
    Async.Wp (answer outside) (service.read request)
      (fun _ w' => (∃ root, (Operation.read request).Roots service v root) ∧
        Calm ((Operation.read request).Roots service v) v w')
      (fun _ => Calm ((Operation.read request).Roots service v) v) w := by
  unfold Service.read
  rw [Async.wp_bind]
  refine (wp_accessed halone h).mono (fun _ w₁ h₁ => ?_) fun _ _ h₁ => h₁
  obtain ⟨⟨root, hroot, rfl⟩, h₁⟩ := h₁
  rw [Async.wp_bind]
  refine wp_ofExcept (fun path hpath => ?_) fun _ _ => h₁
  obtain ⟨segs, hsegments, -, rfl⟩ := normalizeRelativePath_ok hpath
  rw [Async.wp_bind]
  refine wp_ofExcept (fun offset _ => ?_) fun _ _ => h₁
  rw [Async.wp_bind]
  refine wp_ofExcept (fun maxBytes _ => ?_) fun _ _ => h₁
  rw [Async.wp_bind]
  refine (wp_resolved halone hroot.lands.plain (fun s hs => (hsegments s hs).toPlain) h₁).mono
    (fun _ w₂ h₂ => ?_) fun _ _ h₂ => h₂
  obtain ⟨⟨place, hleads, rfl⟩, h₂⟩ := h₂
  have hroots : (Operation.read request).Roots service v root := ⟨hroot, segs, place, hpath, hleads⟩
  have hcovers : Covers ((Operation.read request).Roots service v) place :=
    ⟨root, hroots, hleads.inside⟩
  rw [Async.wp_bind, Async.wp_mapError]
  refine (wp_opened halone (inside_openRead hleads.lands hcovers) h₂).mono (fun handle w₃ h₃ => ?_)
    fun _ _ h₃ => h₃
  exact (wp_closing halone (uses_readRange h₃.1 _ _ _) h₃.2).mono
    (fun _ w₄ h₄ => ⟨⟨root, hroots⟩, h₄⟩) fun _ _ h₄ => h₄

theorem wp_list_contained (request : ListRequest)
    (h : Calm ((Operation.list request).Roots service v) v w) :
    Async.Wp (answer outside) (service.list request)
      (fun _ w' => (∃ root, (Operation.list request).Roots service v root) ∧
        Calm ((Operation.list request).Roots service v) v w')
      (fun _ => Calm ((Operation.list request).Roots service v) v) w := by
  unfold Service.list
  rw [Async.wp_bind]
  refine (wp_accessed halone h).mono (fun _ w₁ h₁ => ?_) fun _ _ h₁ => h₁
  obtain ⟨⟨root, hroot, rfl⟩, h₁⟩ := h₁
  rw [Async.wp_bind]
  refine wp_ofExcept (fun path hpath => ?_) fun _ _ => h₁
  obtain ⟨segs, hsegments, -, rfl⟩ := normalizeRelativePath_ok hpath
  rw [Async.wp_bind]
  refine wp_ofExcept (fun limit _ => ?_) fun _ _ => h₁
  rw [Async.wp_bind]
  refine wp_ofExcept (fun cursor _ => ?_) fun _ _ => h₁
  rw [Async.wp_bind]
  refine (wp_resolved halone hroot.lands.plain (fun s hs => (hsegments s hs).toPlain) h₁).mono
    (fun _ w₂ h₂ => ?_) fun _ _ h₂ => h₂
  obtain ⟨⟨place, hleads, rfl⟩, h₂⟩ := h₂
  have hroots : (Operation.list request).Roots service v root := ⟨hroot, segs, place, hpath, hleads⟩
  have hcovers : Covers ((Operation.list request).Roots service v) place :=
    ⟨root, hroots, hleads.inside⟩
  rw [Async.wp_bind, Async.wp_mapError]
  refine (wp_inside halone (inside_readdir hleads.lands hcovers) h₂).mono
    (fun entries w₃ h₃ => ?_) fun _ _ h₃ => h₃
  rw [Async.wp_bind]
  refine (wp_calm halone (Prog.Uses.mono (fun _ => inside_lookup) (uses_listEntries _ _ entries))
    h₃.2).mono (fun listed w₄ h₄ => ?_) fun _ _ h₄ => h₄
  rw [Async.wp_pure]
  exact ⟨⟨root, hroots⟩, h₄⟩

end

/-! ### The walk of a search -/

section
variable {service : Service} {v : Volume} {outside : Nat → Turn} (halone : Alone outside)
  {roots : Path → Prop} {root : Path} (hroots : roots root) (hplain : root.Plain)
  {options : SearchOptions} (hoptions : options.workspaceRoot = root.text) {w : World}

/-- The descent touches nothing outside when it starts inside. -/
def Descends (outside : Nat → Turn) (roots : Path → Prop) (root : Path) (v : Volume)
    (descend : Descent) : Prop :=
  ∀ place directoryPath state w, v.Lands true place → root <+: place → Calm roots v w →
    Async.Wp (answer outside) (descend place.text directoryPath state) (fun _ => Calm roots v)
      (fun _ => Calm roots v) w

include halone

attribute [local irreducible] Async.Wp

/-- The canonical path of an object, when it has one. -/
theorem wp_tryRealpath {path : JsString} (h : Calm roots v w) :
    Async.Wp (answer outside) (tryCatch (some <$> realpath path) fun _ => pure none)
      (fun found w' => (∀ canonical, found = some canonical →
          ∃ place, v.Lands true place ∧ canonical = place.text) ∧ Calm roots v w')
      (fun _ => Calm roots v) w := by
  rw [Async.wp_tryCatch, Async.wp_map]
  refine (wp_inside halone (inside_lookup (c := .realpath path) trivial) h).mono
    (fun canonical w' h' => ?_) fun _ w' h' => ?_
  · obtain ⟨-, place, -, hlocate, -, rfl⟩ := perform_realpath.mp h'.1
    refine ⟨fun _ hfound => ?_, h'.2⟩
    exact ⟨place, Volume.lands_of_locate hlocate, (Option.some.inj hfound).symm⟩
  · rw [Async.wp_pure]
    exact ⟨fun _ => nofun, h'⟩

theorem wp_tryOpen {place : Path} (hlands : v.Lands true place) (hcovers : Covers roots place)
    (h : Calm roots v w) :
    Async.Wp (answer outside) (tryCatch (some <$> openRead place.text) fun _ => pure none)
      (fun found w' => (∀ handle, found = some handle → Covers roots handle.path) ∧
        Calm roots v w') (fun _ => Calm roots v) w := by
  rw [Async.wp_tryCatch, Async.wp_map]
  refine (wp_opened halone (inside_openRead hlands hcovers) h).mono
    (fun handle w' h' => ?_) fun _ w' h' => ?_
  · exact ⟨fun _ hfound => Option.some.inj hfound ▸ h'.1, h'.2⟩
  · rw [Async.wp_pure]
    exact ⟨fun _ => nofun, h'⟩

include hroots hplain hoptions

theorem wp_searchFile (relativePath childPath : JsString) (state : SearchState)
    (h : Calm roots v w) :
    Async.Wp (answer outside) (searchFile options relativePath childPath state)
      (fun _ => Calm roots v) (fun _ => Calm roots v) w := by
  unfold searchFile
  split
  · rw [Async.wp_pure]
    exact h
  rw [Async.wp_bind]
  refine (wp_tryRealpath halone h).mono (fun found w₁ h₁ => ?_) fun _ _ h₁ => h₁
  cases found with
  | none =>
      rw [Async.wp_pure]
      exact h₁.2
  | some canonical =>
      obtain ⟨place, hlands, rfl⟩ := h₁.1 canonical rfl
      dsimp only
      split
      · rw [Async.wp_pure]
        exact h₁.2
      rename_i hinside
      rw [Bool.not_eq_true, Bool.not_eq_false', hoptions,
        isSameOrDescendant_text hplain hlands.plain] at hinside
      rw [Async.wp_bind]
      refine (wp_tryOpen halone hlands ⟨root, hroots, hinside⟩ h₁.2).mono (fun handle w₂ h₂ => ?_)
        fun _ _ h₂ => h₂
      cases handle with
      | none =>
          rw [Async.wp_pure]
          exact h₂.2
      | some handle => exact wp_closing halone (uses_searchOpenFile _ _ _ (h₂.1 handle rfl) _) h₂.2

omit hroots in
theorem wp_searchDirectory {descend : Option Descent}
    (hdescend : ∀ walk, descend = some walk → Descends outside roots root v walk)
    (relativePath childPath : JsString) (state : SearchState) (h : Calm roots v w) :
    Async.Wp (answer outside) (searchDirectory options descend relativePath childPath state)
      (fun _ => Calm roots v) (fun _ => Calm roots v) w := by
  unfold searchDirectory
  cases descend with
  | none =>
      dsimp only
      rw [Async.wp_pure]
      exact h
  | some walk =>
      dsimp only
      rw [Async.wp_bind]
      refine (wp_tryRealpath halone h).mono (fun found w₁ h₁ => ?_) fun _ _ h₁ => h₁
      cases found with
      | none =>
          rw [Async.wp_pure]
          exact h₁.2
      | some canonical =>
          obtain ⟨place, hlands, rfl⟩ := h₁.1 canonical rfl
          dsimp only
          split
          · rw [Async.wp_pure]
            exact h₁.2
          rename_i hinside
          rw [Bool.not_eq_true, Bool.not_eq_false', hoptions,
            isSameOrDescendant_text hplain hlands.plain] at hinside
          exact hdescend walk rfl place _ _ w₁ hlands hinside h₁.2

theorem wp_searchEntries {descend : Option Descent}
    (hdescend : ∀ walk, descend = some walk → Descends outside roots root v walk)
    (directory directoryPath : JsString) :
    ∀ (entries : List Dirent) (state : SearchState) {w : World},
    Calm roots v w →
    Async.Wp (answer outside)
      (service.searchEntries options descend directory directoryPath entries state)
      (fun _ => Calm roots v) (fun _ => Calm roots v) w
  | [], state, w, h => by
      rw [Service.searchEntries, Async.wp_pure]
      exact h
  | entry :: rest, state, w, h => by
      rw [Service.searchEntries]
      dsimp only
      split
      · rw [Async.wp_pure]
        exact h
      rw [Async.wp_bind]
      refine Async.Wp.mono ?_ (fun state' w' h' =>
        wp_searchEntries hdescend directory directoryPath rest state' h') fun _ _ h' => h'
      unfold Service.searchEntry
      dsimp only
      cases entry.type with
      | symlink =>
          dsimp only
          rw [Async.wp_pure]
          exact h
      | directory => exact wp_searchDirectory halone hplain hoptions hdescend _ _ _ h
      | other =>
          dsimp only
          rw [Async.wp_pure]
          exact h
      | file =>
          dsimp only
          split
          · rw [Async.wp_pure]
            exact h
          · exact wp_searchFile halone hroots hplain hoptions _ _ _ h

theorem descends_searchIn {descend : Option Descent}
    (hdescend : ∀ walk, descend = some walk → Descends outside roots root v walk) :
    Descends outside roots root v (service.searchIn options descend) := by
  intro place directoryPath state w hlands hinside h
  unfold Service.searchIn
  split
  · rw [Async.wp_pure]
    exact h
  rw [Async.wp_bind]
  refine (wp_inside halone (inside_readdir hlands ⟨root, hroots, hinside⟩) h).mono
    (fun entries w₁ h₁ => ?_) fun _ _ h₁ => h₁
  exact wp_searchEntries halone hroots hplain hoptions hdescend _ _ _ _ h₁.2

theorem descends_walkSearch : ∀ levels : Nat,
    Descends outside roots root v (service.walkSearch options levels)
  | 0 => descends_searchIn halone hroots hplain hoptions fun _ => nofun
  | levels + 1 => descends_searchIn halone hroots hplain hoptions fun _ hwalk =>
      Option.some.inj hwalk ▸ descends_walkSearch levels

end

section
variable {service : Service} {v : Volume} {outside : Nat → Turn} (halone : Alone outside)
  {w : World}
include halone

attribute [local irreducible] Async.Wp

theorem wp_prepareSearch {request : SearchRequest} {roots : Path → Prop} (h : Calm roots v w) :
    Async.Wp (answer outside) (service.prepareSearch request)
      (fun prepared w' => (∃ root, service.Root v request.workspaceId root ∧
          prepared.2.workspaceRoot = root.text ∧
          normalizeRelativePath (request.path.getD dot) true = .ok prepared.1) ∧ Calm roots v w')
      (fun _ => Calm roots v) w := by
  unfold Service.prepareSearch
  rw [Async.wp_bind]
  refine (wp_accessed halone h).mono (fun _ w₁ h₁ => ?_) fun _ _ h₁ => h₁
  obtain ⟨⟨root, hroot, rfl⟩, h₁⟩ := h₁
  rw [Async.wp_bind]
  refine wp_ofExcept (fun path hpath => ?_) fun _ _ => h₁
  rw [Async.wp_bind]
  refine wp_ofExcept (fun glob _ => ?_) fun _ _ => h₁
  rw [Async.wp_bind]
  refine wp_ofExcept (fun query _ => ?_) fun _ _ => h₁
  rw [Async.wp_bind]
  refine wp_ofExcept (fun maxResults _ => ?_) fun _ _ => h₁
  rw [Async.wp_bind]
  refine wp_ofExcept (fun maxBytes _ => ?_) fun _ _ => h₁
  rw [Async.wp_bind]
  refine wp_ofExcept (fun maxDepth _ => ?_) fun _ _ => h₁
  rw [Async.wp_bind]
  refine wp_ofExcept (fun maxFileBytes _ => ?_) fun _ _ => h₁
  rw [Async.wp_pure]
  exact ⟨⟨root, hroot, rfl, hpath⟩, h₁⟩

theorem wp_search_contained (request : SearchRequest)
    (h : Calm ((Operation.search request).Roots service v) v w) :
    Async.Wp (answer outside) (service.search request)
      (fun _ w' => (∃ root, (Operation.search request).Roots service v root) ∧
        Calm ((Operation.search request).Roots service v) v w')
      (fun _ => Calm ((Operation.search request).Roots service v) v) w := by
  unfold Service.search
  rw [Async.wp_bind]
  refine (wp_prepareSearch halone h).mono (fun prepared w₁ h₁ => ?_) fun _ _ h₁ => h₁
  obtain ⟨path, options⟩ := prepared
  obtain ⟨⟨root, hroot, hworkspace, hpath⟩, h₁⟩ := h₁
  obtain ⟨segs, hsegments, -, hportable⟩ := normalizeRelativePath_ok hpath
  dsimp only at hworkspace hportable hpath ⊢
  subst hportable
  rw [Async.wp_bind]
  unfold Service.searchPath
  rw [Async.wp_bind, hworkspace]
  refine (wp_resolved halone hroot.lands.plain (fun s hs => (hsegments s hs).toPlain) h₁).mono
    (fun _ w₂ h₂ => ?_) fun _ _ h₂ => h₂
  obtain ⟨⟨place, hleads, rfl⟩, h₂⟩ := h₂
  have hroots : (Operation.search request).Roots service v root :=
    ⟨hroot, segs, place, hpath, hleads⟩
  refine (descends_walkSearch halone hroots hroot.lands.plain hworkspace _ place _ _ w₂ hleads.lands
    hleads.inside h₂).mono (fun state w₃ h₃ => ?_) fun _ _ h₃ => h₃
  rw [Async.wp_pure]
  exact ⟨⟨root, hroots⟩, h₃⟩

end

/-! ## Writes and patches -/

/-- The call keeps to the directory of the target. -/
structure Near (roots : Path → Prop) (dir : Path) (c : Call) : Prop where
  follows : ∀ p ∈ followed c, p = dir.text
  enters : ∀ p ∈ entered c, ∃ name, Plain name ∧ p = target dir [name]
  opens : ∀ handle ∈ opened c, Covers roots handle.path

/-- The directory of the target is still there, and what was touched is
covered. -/
structure Ready (roots : Path → Prop) (dir : Path) (w : World) : Prop where
  stands : w.vol.Stands dir
  within : Within roots w.log

section
variable {roots : Path → Prop} {dir : Path} {v : Volume} {turn : Turn} {e : Event}

/-- What is put in the place of no directory leaves the directories. -/
theorem directory_put {v' : Volume} {place path : Path} {node : Node}
    (hplace : v.node? place ≠ some .directory) (h : v.node? path = some .directory)
    (h' : v'.node? path = some .directory) : (v'.put place node).node? path = some .directory := by
  rw [Volume.node?_put (Volume.ne_nil_of_node? hplace), if_neg]
  · exact h'
  · rintro rfl
    exact hplace h

theorem directory_erase {place path : Path} (hplace : v.node? place ≠ some .directory)
    (h : v.node? path = some .directory) : (v.erase place).node? path = some .directory := by
  rw [Volume.node?_erase (Volume.ne_nil_of_node? hplace), if_neg]
  · exact h
  · rintro rfl
    exact hplace h

theorem directory_edit (handle : Handle) (f : Bytes → Mode → Node) {path : Path}
    (h : v.node? path = some .directory) : (v.edit handle f).node? path = some .directory := by
  unfold Volume.edit
  split
  · rename_i bytes mode hnode
    exact directory_put (by rw [hnode]; nofun) h h
  · exact h

/-- No call removes a directory. -/
theorem directory_perform (c : Call) {path : Path} (h : v.node? path = some .directory) :
    (perform c v).2.node? path = some .directory := by
  cases houtcome : (perform c v).1 with
  | error error =>
      rw [perform_error houtcome]
      exact h
  | ok a =>
      have hperform : perform c v = (.ok a, (perform c v).2) := Prod.ext houtcome rfl
      cases c with
      | openExclusive p mode =>
          obtain ⟨-, hcreated⟩ := perform_openExclusive hperform
          exact hcreated.keepsWays.directory path h
      | link existing new =>
          obtain ⟨place, source, node, -, hfree, -, -, hafter⟩ := perform_link hperform
          rw [hafter]
          exact directory_put (by rw [hfree]; nofun) h h
      | rename old new =>
          obtain ⟨place, source, node, -, hplace, -, hsource, hnode, hafter⟩ :=
            perform_rename hperform
          rw [hafter]
          refine directory_put hplace h (directory_erase (fun hdir => ?_) h)
          exact hnode (Option.some.inj (hsource.symm.trans hdir))
      | rm p =>
          simp only [perform, Volume.rm]
          split
          · exact h
          · exact h
          · split
            · exact h
            · exact h
            · rename_i hdirectory hnode
              exact directory_erase
                (fun hdir => hdirectory (Option.some.inj (hnode.symm.trans hdir))) h
      | chmod handle mode => exact directory_edit handle _ h
      | writeFile handle content => exact directory_edit handle _ h
      | _ => exact h

theorem Took.directory (htook : Took turn v e) {path : Path}
    (h : e.before.node? path = some .directory) : e.after.node? path = some .directory := by
  obtain ⟨-, -, hafter⟩ | ⟨fault, -, -, hafter⟩ := htook.outcome
  · rw [hafter]
    exact directory_perform e.call h
  · rw [hafter]
    cases e.call with
    | writeFile handle content => exact directory_edit handle _ h
    | _ => exact h

theorem Took.stands (htook : Took turn v e) (h : e.before.Stands dir) : e.after.Stands dir where
  plain := h.plain
  short := h.short
  directories d name hd := htook.directory (h.directories d name hd)
  node := htook.directory h.node

/-- The path string of a name in the directory leads to that entry. -/
theorem locate_name (h : v.Stands dir) {name : JsString} (hname : Plain name) {place : Path}
    (hplace : v.locate false (target dir [name]) = .ok place) : place = dir ++ [scalars name] := by
  have hcomponents : components (scalars (target dir [name])) = dir ++ [scalars name] :=
    components_target h.plain fun s hs => List.mem_singleton.mp hs ▸ hname
  obtain ⟨jump, hjump⟩ := Volume.locate_components h hcomponents false
  rw [hjump] at hplace
  obtain ⟨-, hlong⟩ | ⟨-, hshort⟩ := steps_single v false jump dir hname.name.ne_dotDot
  · rw [hlong] at hplace
    cases hplace
  · rw [hshort fun _ _ => rfl] at hplace
    exact (Except.ok.inj hplace).symm

theorem Near.covers (h : Near roots dir e.call) (hstands : e.before.Stands dir)
    (hdir : Covers roots dir) {place : Path} (htouches : Touches e place) : Covers roots place := by
  obtain ⟨p, hp, hlocate⟩ | ⟨p, hp, hlocate⟩ | ⟨handle, hhandle, rfl⟩ := htouches
  · rw [h.follows p hp, Volume.locate_text (hstands.lands true)] at hlocate
    exact Except.ok.inj hlocate ▸ hdir
  · obtain ⟨name, hname, rfl⟩ := h.enters p hp
    rw [locate_name hstands hname hlocate]
    exact hdir.trans (List.prefix_append _ _)
  · exact h.opens handle hhandle

theorem near_openRead : Near roots dir (.openRead dir.text) :=
  ⟨fun _ hp => List.mem_singleton.mp hp, by simp [entered], by simp [opened]⟩

theorem near_openExclusive {name : JsString} (hname : Plain name) (mode : Mode) :
    Near roots dir (.openExclusive (target dir [name]) mode) :=
  ⟨by simp [followed], fun _ hp => ⟨name, hname, List.mem_singleton.mp hp⟩, by simp [opened]⟩

theorem near_rm {name : JsString} (hname : Plain name) :
    Near roots dir (.rm (target dir [name])) :=
  ⟨by simp [followed], fun _ hp => ⟨name, hname, List.mem_singleton.mp hp⟩, by simp [opened]⟩

theorem near_link {name name' : JsString} (hname : Plain name) (hname' : Plain name') :
    Near roots dir (.link (target dir [name]) (target dir [name'])) := by
  refine ⟨by simp [followed], fun p hp => ?_, by simp [opened]⟩
  obtain rfl | hp := List.mem_cons.mp hp
  · exact ⟨name, hname, rfl⟩
  · exact ⟨name', hname', List.mem_singleton.mp hp⟩

theorem near_rename {name name' : JsString} (hname : Plain name) (hname' : Plain name') :
    Near roots dir (.rename (target dir [name]) (target dir [name'])) := by
  refine ⟨by simp [followed], fun p hp => ?_, by simp [opened]⟩
  obtain rfl | hp := List.mem_cons.mp hp
  · exact ⟨name, hname, rfl⟩
  · exact ⟨name', hname', List.mem_singleton.mp hp⟩

theorem near_sync (handle : Handle) : Near roots dir (.sync handle) :=
  ⟨by simp [followed], by simp [entered], by simp [opened]⟩

theorem near_close (handle : Handle) : Near roots dir (.close handle) :=
  ⟨by simp [followed], by simp [entered], by simp [opened]⟩

theorem near_chmod {handle : Handle} (h : Covers roots handle.path) (mode : Mode) :
    Near roots dir (.chmod handle mode) :=
  ⟨by simp [followed], by simp [entered], fun _ hhandle => List.mem_singleton.mp hhandle ▸ h⟩

theorem near_writeFile {handle : Handle} (h : Covers roots handle.path) (content : Bytes) :
    Near roots dir (.writeFile handle content) :=
  ⟨by simp [followed], by simp [entered], fun _ hhandle => List.mem_singleton.mp hhandle ▸ h⟩

/-- The entry of the target is no symbolic link. -/
def Unlinked (v : Volume) (place : Path) : Prop :=
  ∀ target, v.node? place ≠ some (.symlink target)

/-- An entry that is no link is opened itself. -/
theorem inside_target (h : v.Stands dir) (hdir : Covers roots dir) {name : JsString}
    (hname : Plain name) (hunlinked : Unlinked v (dir ++ [scalars name])) :
    Inside roots v (.openRead (target dir [name])) := by
  refine ⟨trivial, fun p hp place hlocate => ?_, by simp [opened]⟩
  have hcomponents : components (scalars (target dir [name])) = dir ++ [scalars name] :=
    components_target h.plain fun s hs => List.mem_singleton.mp hs ▸ hname
  obtain ⟨jump, hjump⟩ := Volume.locate_components h hcomponents true
  rw [List.mem_singleton.mp hp, hjump] at hlocate
  obtain ⟨-, hlong⟩ | ⟨-, hshort⟩ := steps_single v true jump dir hname.name.ne_dotDot
  · rw [hlong] at hlocate
    cases hlocate
  · rw [hshort fun target hnode => absurd hnode (hunlinked target)] at hlocate
    exact Except.ok.inj hlocate ▸ hdir.trans (List.prefix_append _ _)

end

section
variable {roots : Path → Prop} {dir : Path}

theorem near_staging {handle : Handle} (h : Covers roots handle.path) (initial : WriteTargetState)
    (content : Bytes) : Async.Uses (Near roots dir)
      (tryFinally (stageContent handle initial content) (Handle.close handle)) := by
  refine Async.uses_tryFinally ?_ (Async.uses_request (near_close handle))
  unfold stageContent
  refine Async.uses_bind ?_ fun _ => Async.uses_bind
    (Async.uses_request (near_writeFile h content)) fun _ => Async.uses_request (near_sync handle)
  split
  · exact Async.uses_request (near_chmod h initial.mode)
  · exact Async.uses_pure

theorem near_syncDirectory : Async.Uses (Near roots dir) (syncDirectoryBestEffort dir.text) := by
  unfold syncDirectoryBestEffort
  refine Async.uses_bind (Async.uses_tryCatch (Async.uses_map (Async.uses_request near_openRead))
    fun _ => Async.uses_pure) fun handle => ?_
  cases handle with
  | none => exact Async.uses_pure
  | some handle =>
      refine Async.uses_bind (Async.uses_tryCatch (Async.uses_map
        (Async.uses_request (near_sync handle))) fun _ => Async.uses_pure) fun synced => ?_
      exact Async.uses_bind (Async.uses_ignoreErrors (Async.uses_request (near_close handle)))
        fun _ => Async.uses_pure

theorem near_commitTemp {options : WriteOptions} {name temp : JsString} (hname : Plain name)
    (htemp : Plain temp) (htarget : options.target = target dir [name]) :
    Async.Uses (Near roots dir) (commitTemp options (target dir [temp])) := by
  unfold commitTemp
  rw [htarget]
  split
  · refine Async.uses_bind (Async.uses_tryCatch (Async.uses_request (near_link htemp hname))
      fun e => ?_) fun _ => Async.uses_ignoreErrors (Async.uses_request (near_rm htemp))
    split
    · exact Async.uses_throw
    · exact Async.uses_throw
  · exact Async.uses_mapError (Async.uses_request (near_rename htemp hname))

end

section
variable {service : Service} {roots : Path → Prop} {dir : Path} {name : JsString} {u : Volume}
  {outside : Nat → Turn} (halone : Alone outside) {w : World} {α : Type}

theorem Ready.calm (h : Ready roots dir w) : Calm roots w.vol w := ⟨rfl, h.within⟩

theorem Calm.ready (h : Calm roots u w) (hstands : u.Stands dir) : Ready roots dir w :=
  ⟨h.vol.symm ▸ hstands, h.within⟩

include halone

theorem Ready.event (h : Ready roots dir w) (hdir : Covers roots dir) {n : Nat} {e : Event}
    (htook : Took (outside n) w.vol e) (hnear : Near roots dir e.call) :
    e.before = w.vol ∧ Ready roots dir ⟨e.after, e :: w.log⟩ := by
  have hbefore : e.before = w.vol := by rw [htook.before, halone n]
  have hstands : e.before.Stands dir := hbefore.symm ▸ h.stands
  exact ⟨hbefore, Took.stands htook hstands,
    h.within.cons fun _ ht => hnear.covers hstands hdir ht⟩

/-- A function that keeps to the directory. -/
theorem wp_near {p : Async α} (hp : Async.Uses (Near roots dir) p) (hdir : Covers roots dir)
    (h : Ready roots dir w) :
    Async.Wp (answer outside) p (fun _ => Ready roots dir) (fun _ => Ready roots dir) w :=
  wp_uses hp (fun _ _ _ hc hI hcall htook => (hI.event halone hdir htook (hcall ▸ hc)).2) h

variable (hname : Plain name) (hdir : Covers roots dir)
include hname hdir

/-- The file that is created is in the directory. -/
theorem wp_created (mode : Mode) (h : Ready roots dir w) :
    Async.Wp (answer outside) (openExclusive (target dir [name]) mode)
      (fun handle w' => Covers roots handle.path ∧ Ready roots dir w')
      (fun _ => Ready roots dir) w := by
  refine wp_call ?_ ?_
  · intro handle e hperform hcall _ htook
    obtain ⟨hbefore, hready⟩ := h.event halone hdir htook (hcall ▸ near_openExclusive hname mode)
    obtain ⟨hlocate, -⟩ := perform_openExclusive hperform
    rw [locate_name (hbefore ▸ h.stands) hname hlocate]
    exact ⟨hdir.trans (List.prefix_append _ _), hready⟩
  · intro _ e _ hcall _ htook
    exact (h.event halone hdir htook (hcall ▸ near_openExclusive hname mode)).2

attribute [local irreducible] Async.Wp

theorem wp_sha256Target {path : JsString} (hstands : u.Stands dir)
    (hunlinked : Unlinked u (dir ++ [scalars name])) (h : Calm roots u w) :
    Async.Wp (answer outside) (service.sha256File (target dir [name]) path)
      (fun _ => Calm roots u) (fun _ => Calm roots u) w := by
  unfold Service.sha256File
  rw [Async.wp_bind, Async.wp_mapError]
  refine (wp_opened halone (inside_target hstands hdir hname hunlinked) h).mono
    (fun handle w₁ h₁ => ?_) fun _ _ h₁ => h₁
  rw [Async.wp_bind]
  refine (wp_closing halone (uses_hashedFrom (fun _ => inside_read h₁.1 _ _) _ _ _) h₁.2).mono
    (fun hashed w₂ h₂ => ?_) fun _ _ h₂ => h₂
  rw [Async.wp_pure]
  exact h₂

/-- An inspection touches the target when it is no link, and nothing else. -/
theorem wp_inspectTarget {path : JsString} (hstands : u.Stands dir) (h : Calm roots u w) :
    Async.Wp (answer outside) (service.inspectWriteTarget (target dir [name]) path)
      (fun state w' => (state.existing = true → Unlinked u (dir ++ [scalars name])) ∧
        Calm roots u w') (fun _ => Calm roots u) w := by
  unfold Service.inspectWriteTarget
  rw [Async.wp_bind, Async.wp_tryCatch, Async.wp_map]
  refine (wp_inside halone (inside_lookup (c := .lstat (target dir [name])) trivial) h).mono
    (fun stats w₁ h₁ => ?_) fun error w₁ h₁ => ?_
  · obtain ⟨hlstat, h₁⟩ := h₁
    obtain ⟨-, place, node, hlocate, hnode, rfl⟩ := perform_lstat.mp hlstat
    obtain rfl := locate_name hstands hname hlocate
    dsimp only
    rw [Async.wp_bind]
    refine wp_failWhen (fun hsymlink => ?_) fun _ => h₁
    have hunlinked : Unlinked u (dir ++ [scalars name]) := by
      rintro link hlink
      obtain rfl := Option.some.inj (hnode.symm.trans hlink)
      simp [Node.stats] at hsymlink
    rw [Async.wp_bind]
    refine wp_failWhen (fun _ => ?_) fun _ => h₁
    rw [Async.wp_bind]
    refine (wp_sha256Target halone hname hdir hstands hunlinked h₁).mono (fun _ w₂ h₂ => ?_)
      fun _ _ h₂ => h₂
    rw [Async.wp_pure]
    exact ⟨fun _ => hunlinked, h₂⟩
  · split
    · rw [Async.wp_pure, Async.wp_pure]
      exact ⟨fun hexisting => Bool.noConfusion hexisting, h₁⟩
    · rw [Async.wp_throw]
      exact h₁

variable {uuid : JsString} {options : WriteOptions} (hpid : slash ∉ service.pid)
  (huuid : slash ∉ uuid) (htarget : options.target = target dir [name])
  (hparent : options.parent = dir.text)
include hpid huuid htarget hparent

theorem wp_writeBody_contained (initial : WriteTargetState) (h : Ready roots dir w) :
    Local.Wp (answer outside) (service.writeBody uuid options initial)
      (fun _ _ => Ready roots dir) (fun _ _ => Ready roots dir) ⟨false, false⟩ w := by
  have htemp := tempPath_eq h.stands.plain hname hpid huuid htarget hparent
  have hplain := plain_tempName hpid huuid hname
  unfold Service.writeBody
  rw [htemp, htarget, hparent]
  refine Local.wp_bind.mpr (Local.wp_lift.mpr ?_)
  rw [Async.wp_mapError]
  refine (wp_created halone hplain hdir _ h).mono (fun handle w₁ h₁ => ?_) fun _ _ h₁ => h₁
  refine Local.wp_bind.mpr (Local.wp_assign.mpr (Local.wp_bind.mpr (Local.wp_lift.mpr ?_)))
  refine (wp_near halone (near_staging h₁.1 initial options.content) hdir h₁.2).mono
    (fun _ w₂ h₂ => ?_) fun _ _ h₂ => h₂
  refine Local.wp_bind.mpr (Local.wp_lift.mpr ?_)
  refine (wp_inspectTarget halone hname hdir h₂.stands h₂.calm).mono (fun before w₃ h₃ => ?_)
    fun _ _ h₃ => h₃.ready h₂.stands
  have hready := h₃.2.ready h₂.stands
  refine Local.wp_bind.mpr (Local.wp_lift.mpr (wp_ofExcept (fun _ _ => ?_) fun _ _ => hready))
  refine Local.wp_bind.mpr (Local.wp_lift.mpr ?_)
  refine (wp_near halone (near_commitTemp hname hplain htarget) hdir hready).mono
    (fun _ w₄ h₄ => ?_) fun _ _ h₄ => h₄
  refine Local.wp_bind.mpr (Local.wp_assign.mpr (Local.wp_bind.mpr (Local.wp_lift.mpr ?_)))
  have hsync : Async.Uses (Near roots dir)
      (tryCatch (syncDirectoryBestEffort dir.text) fun _ => pure false) :=
    Async.uses_tryCatch near_syncDirectory fun _ => Async.uses_pure
  exact (wp_near halone hsync hdir h₄).mono (fun _ _ h₅ => h₅) fun _ _ h₅ => h₅

theorem wp_writeAtomic_contained (h : Ready roots dir w) :
    Async.Wp (answer outside) (service.writeAtomic uuid options) (fun _ => Ready roots dir)
      (fun _ => Ready roots dir) w := by
  have htemp := tempPath_eq h.stands.plain hname hpid huuid htarget hparent
  unfold Service.writeAtomic
  rw [htarget, Async.wp_bind]
  refine (wp_inspectTarget halone hname hdir h.stands h.calm).mono (fun initial w₁ h₁ => ?_)
    fun _ _ h₁ => h₁.ready h.stands
  have hready := h₁.2.ready h.stands
  rw [Async.wp_bind]
  refine wp_ofExcept (fun _ _ => ?_) fun _ _ => hready
  have hcleanup (s : TempState) : Async.Uses (Near roots dir)
      (if s.tempExists && !s.renamed then (rm (service.tempPath uuid options)).ignoreErrors
        else pure ⟨⟩) := by
    split
    · rw [htemp]
      exact Async.uses_ignoreErrors (Async.uses_request (near_rm (plain_tempName hpid huuid hname)))
    · exact Async.uses_pure
  refine Local.wp_tryFinally.mpr ?_
  refine (wp_writeBody_contained halone hname hdir hpid huuid htarget hparent initial hready).mono
    (fun _ s w₂ h₂ => ?_) fun _ s w₂ h₂ => ?_
  · exact wp_near halone (hcleanup s) hdir h₂
  · exact wp_near halone (hcleanup s) hdir h₂

end

section
variable {service : Service} {v : Volume} {outside : Nat → Turn} (halone : Alone outside)
  (hpid : slash ∉ service.pid) {uuid : JsString} (huuid : slash ∉ uuid) {w : World}
include halone hpid huuid

attribute [local irreducible] Async.Wp

theorem wp_write_contained (request : WriteRequest)
    (h : Calm ((Operation.write uuid request).Roots service v) v w) :
    Async.Wp (answer outside) (service.write uuid request)
      (fun _ w' => (∃ root, (Operation.write uuid request).Roots service v root) ∧
        Within ((Operation.write uuid request).Roots service v) w'.log)
      (fun _ w' => Within ((Operation.write uuid request).Roots service v) w'.log) w := by
  unfold Service.write
  rw [Async.wp_bind]
  refine (wp_lookups (Q := fun options _ => ∃ root segs dir name,
    service.Aims v request.workspaceId request.path root segs dir name ∧
      options.target = target dir [name] ∧ options.parent = dir.text) halone
    (lookups_prepareWrite service request) (yields_prepareWrite halone
      fun root segs dir name _ haims => ⟨root, segs, dir, name, haims, rfl, rfl⟩) h).mono
    (fun options w₁ h₁ => ?_) fun _ _ h₁ => h₁.within
  obtain ⟨⟨root, segs, dir, name, haims, htarget, hparent⟩, h₁⟩ := h₁
  have hroots : (Operation.write uuid request).Roots service v root :=
    ⟨haims.available, segs, dir, name, haims.path, haims.leads, haims.stands⟩
  exact (wp_writeAtomic_contained halone haims.plain_name ⟨root, hroots, haims.leads.inside⟩ hpid
    huuid htarget hparent (h₁.ready haims.stands)).mono (fun _ _ h₂ => ⟨⟨root, hroots⟩, h₂.within⟩)
    fun _ _ h₂ => h₂.within

omit hpid huuid in
theorem wp_preparePatch_aims (request : PatchRequest) {roots : Path → Prop} (h : Calm roots v w) :
    Async.Wp (answer outside) (service.preparePatch request)
      (fun options w' => (∃ root segs dir name,
          service.Aims v request.workspaceId request.path root segs dir name ∧
          options.target = target dir [name] ∧ options.parent = dir.text) ∧ Calm roots v w')
      (fun _ => Calm roots v) w := by
  refine wp_lookups (Q := fun options _ => ∃ root segs dir name,
    service.Aims v request.workspaceId request.path root segs dir name ∧
      options.target = target dir [name] ∧ options.parent = dir.text) halone
    (lookups_preparePatch service request) ?_ h
  unfold Service.preparePatch
  refine yields_bind (yields_ofExcept fun expected _ => ?_)
  refine yields_bind (yields_ofExcept fun edits _ => ?_)
  refine yields_bind (yields_accessWorkspace halone fun root hroot => ?_)
  refine yields_bind (yields_ofExcept fun path hpath => ?_)
  refine yields_bind (yields_writeTarget halone hroot hpath fun segs dir name haims _ => ?_)
  exact yields_pure ⟨root, segs, dir, name, haims, rfl, rfl⟩

omit hpid huuid in
/-- The content of the target is read only when it is no link. -/
theorem wp_patchedContent_contained {roots : Path → Prop} {dir : Path} {name : JsString}
    {options : PatchOptions} (hname : Plain name) (hdir : Covers roots dir) (hstands : v.Stands dir)
    (htarget : options.target = target dir [name]) (h : Calm roots v w) :
    Async.Wp (answer outside) (service.patchedContent options) (fun _ => Calm roots v)
      (fun _ => Calm roots v) w := by
  unfold Service.patchedContent
  rw [htarget, Async.wp_bind]
  refine (wp_inspectTarget halone hname hdir hstands h).mono (fun initial w₁ h₁ => ?_)
    fun _ _ h₁ => h₁
  obtain ⟨hunlinked, h₁⟩ := h₁
  rw [Async.wp_bind]
  refine wp_ofExcept (fun _ hprecondition => ?_) fun _ _ => h₁
  have hexisting : initial.existing = true := by
    unfold enforcePatchHashPrecondition at hprecondition
    split at hprecondition
    · cases hprecondition
    · rename_i hcondition
      simp only [Bool.or_eq_true, Bool.not_eq_true', not_or, Bool.not_eq_false] at hcondition
      exact hcondition.1
  rw [Async.wp_bind]
  refine wp_failWhen (fun _ => ?_) fun _ => h₁
  rw [Async.wp_bind]
  unfold readWholeFile
  rw [Async.wp_bind]
  refine wp_failWhen (fun _ => ?_) fun _ => h₁
  rw [Async.wp_bind, Async.wp_mapError]
  refine (wp_opened halone (inside_target hstands hdir hname (hunlinked hexisting)) h₁).mono
    (fun handle w₂ h₂ => ?_) fun _ _ h₂ => h₂
  have hwhole : Async.Uses (Inside roots v) (do
      let data ← Handle.readFile handle
      failWhen (maxWriteBytes < data.length) .patchTooLarge options.path
        (js "patch source exceeds " ++ decimal maxWriteBytes ++ js " bytes: " ++ options.path)
      return data) :=
    Async.uses_bind (Async.uses_request (inside_readFile h₂.1)) fun _ =>
      Async.uses_bind (uses_failWhen _ _ _ _) fun _ => Async.uses_pure
  refine (wp_closing halone hwhole h₂.2).mono (fun source w₃ h₃ => ?_) fun _ _ h₃ => h₃
  rw [Async.wp_bind]
  refine wp_ofExcept (fun _ _ => ?_) fun _ _ => h₃
  rw [Async.wp_bind]
  refine wp_failWhen (fun _ => ?_) fun _ => h₃
  rw [Async.wp_bind]
  refine (wp_calm halone (uses_decodeUtf8 source) h₃).mono (fun text w₄ h₄ => ?_) fun _ _ h₄ => h₄
  rw [Async.wp_bind]
  refine wp_ofExcept (fun _ _ => ?_) fun _ _ => h₄
  rw [Async.wp_bind]
  refine wp_failWhen (fun _ => ?_) fun _ => h₄
  rw [Async.wp_pure]
  exact h₄

omit hpid huuid in
theorem wp_patchFailure_contained {roots : Path → Prop} {dir : Path} {name : JsString}
    {options : PatchOptions} (hname : Plain name) (hdir : Covers roots dir)
    (htarget : options.target = target dir [name]) (error : Thrown) (h : Ready roots dir w) :
    Async.Wp (answer outside) (service.patchFailure options error) (fun _ => Ready roots dir)
      (fun _ => Ready roots dir) w := by
  unfold Service.patchFailure
  split
  · rw [htarget, Async.wp_bind]
    refine (wp_inspectTarget halone hname hdir h.stands h.calm).mono (fun current w₁ h₁ => ?_)
      fun _ _ h₁ => h₁.ready h.stands
    exact wp_ofExcept (fun _ _ => h₁.2.ready h.stands) fun _ _ => h₁.2.ready h.stands
  · split
    · split
      · rw [Async.wp_throw]
        exact h
      · rw [Async.wp_throw]
        exact h
    · rw [Async.wp_throw]
      exact h

theorem wp_patch_contained (request : PatchRequest)
    (h : Calm ((Operation.patch uuid request).Roots service v) v w) :
    Async.Wp (answer outside) (service.patch uuid request)
      (fun _ w' => (∃ root, (Operation.patch uuid request).Roots service v root) ∧
        Within ((Operation.patch uuid request).Roots service v) w'.log)
      (fun _ w' => Within ((Operation.patch uuid request).Roots service v) w'.log) w := by
  unfold Service.patch
  rw [Async.wp_bind]
  refine (wp_preparePatch_aims halone request h).mono (fun options w₁ h₁ => ?_)
    fun _ _ h₁ => h₁.within
  obtain ⟨⟨root, segs, dir, name, haims, htarget, hparent⟩, h₁⟩ := h₁
  have hroots : (Operation.patch uuid request).Roots service v root :=
    ⟨haims.available, segs, dir, name, haims.path, haims.leads, haims.stands⟩
  have hdir : Covers ((Operation.patch uuid request).Roots service v) dir :=
    ⟨root, hroots, haims.leads.inside⟩
  rw [Async.wp_bind]
  refine (wp_patchedContent_contained halone haims.plain_name hdir haims.stands htarget h₁).mono
    (fun content w₂ h₂ => ?_) fun _ _ h₂ => h₂.within
  rw [Async.wp_bind, Async.wp_tryCatch]
  refine (wp_writeAtomic_contained halone haims.plain_name hdir hpid huuid htarget hparent
    (h₂.ready haims.stands)).mono (fun write w₃ h₃ => ?_) fun error w₃ h₃ => ?_
  · rw [Async.wp_pure]
    exact ⟨⟨root, hroots⟩, h₃.within⟩
  · refine (wp_patchFailure_contained halone haims.plain_name hdir htarget error h₃).mono
      (fun _ w₄ h₄ => ?_) fun _ _ h₄ => h₄.within
    rw [Async.wp_pure]
    exact ⟨⟨root, hroots⟩, h₄.within⟩

end

/-! ## Operations -/

/-- The uuid of a write or a patch has no separator in it. -/
def Operation.PlainUuid : Operation → Prop
  | .write uuid _ | .patch uuid _ => slash ∉ uuid
  | _ => True

/-- Whatever the links of the tree are and whichever calls fail, an operation
touches nothing outside the root of its workspace, and nothing at all unless
the path of the request leads into it; nor does it succeed without that. -/
theorem operations_contained {outside : Nat → Turn} (halone : Alone outside) {service : Service}
    (hpid : slash ∉ service.pid) (op : Operation) (huuid : op.PlainUuid) (v : Volume)
    {outcome : Except Thrown op.Result} {w : World}
    (hrun : Prog.run (answer outside) (op.run service).run ⟨v, []⟩ = (outcome, w)) :
    (∀ e ∈ w.log, ∀ place, Touches e place →
      ∃ root, op.Roots service v root ∧ root <+: place) ∧
    (∀ result, outcome = .ok result → ∃ root, op.Roots service v root) := by
  have hstart : Calm (op.Roots service v) v ⟨v, []⟩ := .start v
  have hwp : Async.Wp (answer outside) (op.run service)
      (fun _ w' => (∃ root, op.Roots service v root) ∧ Within (op.Roots service v) w'.log)
      (fun _ w' => Within (op.Roots service v) w'.log) ⟨v, []⟩ := by
    cases op with
    | read request =>
        exact (wp_read_contained halone request hstart).mono (fun _ _ h => ⟨h.1, h.2.within⟩)
          fun _ _ h => h.within
    | list request =>
        exact (wp_list_contained halone request hstart).mono (fun _ _ h => ⟨h.1, h.2.within⟩)
          fun _ _ h => h.within
    | search request =>
        exact (wp_search_contained halone request hstart).mono (fun _ _ h => ⟨h.1, h.2.within⟩)
          fun _ _ h => h.within
    | write uuid request => exact wp_write_contained halone hpid huuid request hstart
    | patch uuid request => exact wp_patch_contained halone hpid huuid request hstart
  rw [Async.wp_iff, hrun] at hwp
  cases outcome with
  | ok result => exact ⟨hwp.2, fun _ _ => hwp.1⟩
  | error e => exact ⟨hwp, nofun⟩

/-- A workspace with the file `d/b`, a link `in` to `d` and a link `out` to a
directory outside. -/
def linked : Volume :=
  ⟨⟨[(["ws".toList], .directory), (["ws".toList, "d".toList], .directory),
      (["ws".toList, "d".toList, "b".toList], .file [0x78] 0o644),
      (["ws".toList, "in".toList], .symlink "d".toList),
      (["ws".toList, "out".toList], .symlink "/etc".toList),
      (["etc".toList], .directory), (["etc".toList, "b".toList], .file [0x79] 0o644)], by
    change [["ws".toList], ["ws".toList, "d".toList], ["ws".toList, "d".toList, "b".toList],
      ["ws".toList, "in".toList], ["ws".toList, "out".toList], ["etc".toList],
      ["etc".toList, "b".toList]].Nodup
    decide⟩, 0o022⟩

/-- The run of a read of a path in that workspace. -/
def readLinked (path : JsString) : Except Thrown ReadResult × World :=
  Prog.run (answer still) (oneWorkspace.read ⟨js "ws", path, none, none⟩).run ⟨linked, []⟩

theorem operations_contained_linked :
    (∃ root, (Operation.read ⟨js "ws", js "in/b", none, none⟩).Roots oneWorkspace linked root) ∧
    (readLinked (js "out/b")).1.isOk = false ∧
    ∀ e ∈ (readLinked (js "out/b")).2.log, ∀ place, Touches e place →
      ∃ root, (Operation.read ⟨js "ws", js "out/b", none, none⟩).Roots oneWorkspace linked root ∧
        root <+: place := by
  have hresult : ∃ result, readLinked (js "in/b") = (.ok result, (readLinked (js "in/b")).2) :=
    ⟨⟨js "in/b", .text, 1, 0, 1, true, false, some (js "x")⟩, Prod.ext (by decide +kernel) rfl⟩
  obtain ⟨result, hresult⟩ := hresult
  have hin := operations_contained alone_still (by decide)
    (.read ⟨js "ws", js "in/b", none, none⟩) trivial linked hresult
  have hrejected : readLinked (js "out/b") =
      ((readLinked (js "out/b")).1, (readLinked (js "out/b")).2) := rfl
  have hout := operations_contained alone_still (by decide)
    (.read ⟨js "ws", js "out/b", none, none⟩) trivial linked hrejected
  exact ⟨hin.2 result rfl, by decide +kernel, hout.1⟩

end Benchhand.Filesystem
