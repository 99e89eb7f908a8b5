/-
Benchhand.Filesystem.PathsTheorems — the path strings in results.

A path string in a result is for a directory entry: the target of the request,
a listed entry or a matched file. Passed back in a request it is taken as it is
and leads to that entry again just when no name on the way has a backslash and
no directory at its front is named like a drive (`paths_readdressed`).
-/
import Benchhand.Filesystem.Patch
import Benchhand.Filesystem.SearchFilesTheorems
import Benchhand.Filesystem.WriteTheorems

namespace Benchhand.Filesystem

open Text Posix Process

/-! ## Operations -/

/-- A call of the service that returns paths. -/
inductive Operation where
  | read (request : ReadRequest)
  | list (request : ListRequest)
  | search (request : SearchRequest)
  | write (uuid : JsString) (request : WriteRequest)
  | patch (uuid : JsString) (request : PatchRequest)

namespace Operation

def Result : Operation → Type
  | .read _ => ReadResult
  | .list _ => ListResult
  | .search _ => SearchResult
  | .write _ _ => WriteResult
  | .patch _ _ => PatchResult

def workspaceId : Operation → JsString
  | .read request => request.workspaceId
  | .list request => request.workspaceId
  | .search request => request.workspaceId
  | .write _ request => request.workspaceId
  | .patch _ request => request.workspaceId

/-- The path of the request, and whether it may be the root. -/
def path : Operation → JsString × Bool
  | .read request => (request.path, false)
  | .list request => (request.path.getD dot, true)
  | .search request => (request.path.getD dot, true)
  | .write _ request => (request.path, false)
  | .patch _ request => (request.path, false)

/-- The operation on a service. -/
def run (service : Service) : (op : Operation) → Async op.Result
  | .read request => service.read request
  | .list request => service.list request
  | .search request => service.search request
  | .write uuid request => service.write uuid request
  | .patch uuid request => service.patch uuid request

/-- The path of the target in a result. -/
def ownPath : (op : Operation) → op.Result → JsString
  | .read _, result => result.path
  | .list _, result => result.path
  | .search _, result => result.path
  | .write _ _, result => result.path
  | .patch _ _, result => result.path

/-- The paths of listed entries and matched files. -/
def otherPaths : (op : Operation) → op.Result → List JsString
  | .list _, result => result.entries.map ListEntry.path
  | .search _, result => result.matches.map SearchMatch.path
  | _, _ => []

end Operation

/-! ## Entries -/

/-- The string that `resolveExistingPath(root, path)` looks up. -/
def candidate (root path : JsString) : JsString :=
  if path = dot then root
  else resolve (root :: (path.splitOn slash).filter fun s => s ≠ [])

/-- A request path leads to a directory entry. -/
def Names (v : Volume) (root path : JsString) (allowRoot : Bool) (entry : Path) : Prop :=
  ∃ normal, normalizeRelativePath path allowRoot = .ok normal ∧
    v.locate false (candidate root normal) = .ok entry

/-- The path string of an object below a directory, as the walk puts it
together. -/
def portableBelow (base : JsString) (names : List Name) : JsString :=
  names.foldl (fun base name => joinPortable base name.text) base

/-- A path string in a result, with the entry that it is for. -/
inductive Operation.Returns (op : Operation) (result : op.Result) (v : Volume) (root : JsString) :
    JsString → Path → Prop
  | own {entry : Path} (h : Names v root op.path.1 op.path.2 entry) :
      op.Returns result v root (op.ownPath result) entry
  | below {path : JsString} {dir : Path} {names : List Name} {node : Node}
      (hmem : path ∈ op.otherPaths result)
      (hdir : v.locate true (candidate root (op.ownPath result)) = .ok dir) (hne : names ≠ [])
      (hnode : v.node? (dir ++ names) = some node)
      (hpath : path = portableBelow (op.ownPath result) names) :
      op.Returns result v root path (dir ++ names)

/-- Passed back in a request, the path is taken as it is and leads to the entry
and to no other. -/
structure Readdressed (v : Volume) (root path : JsString) (entry : Path) : Prop where
  accepted : ∀ allowRoot, (path = dot → allowRoot = true) →
    normalizeRelativePath path allowRoot = .ok path
  resolved : ∀ allowRoot, (path = dot → allowRoot = true) →
    ∀ entry', Names v root path allowRoot entry' ↔ entry' = entry

/-- The name of a drive of Windows, such as `C:`. -/
def isDrive : JsString → Bool
  | [letter, colon] => isWindowsDeviceRoot letter && colon == ch ':'
  | _ => false

/-- No name has a backslash, and a directory at the front is not named like a
drive. -/
structure Portable (names : List JsString) : Prop where
  noBackslash : ∀ s ∈ names, ch '\\' ∉ s
  noDrive : ∀ first second rest, names = first :: second :: rest → isDrive first = false

/-! ## Passing a path back -/

theorem zero_notMem_units {c : Char} (h : c ≠ '\x00') : (0 : UInt16) ∉ units c := by
  have hpos : c.toNat ≠ 0 := fun hzero => h (Char.toNat_inj.mp hzero)
  have hcode := toNat_lt_or c
  have hne : ∀ n : Nat, n ≠ 0 → n < 0x10000 → (0 : UInt16) ≠ UInt16.ofNat n := by
    intro n hn hlt heq
    have htoNat := congrArg UInt16.toNat heq
    rw [toNat_ofNat16 hlt] at htoNat
    exact hn htoNat.symm
  intro hmem
  by_cases hbmp : c.toNat < 0x10000
  · rw [units_bmp hbmp, List.mem_singleton] at hmem
    exact hne _ hpos hbmp hmem
  · rw [units_astral hbmp, List.mem_cons, List.mem_singleton] at hmem
    obtain hmem | hmem := hmem
    · exact hne _ (by omega) (by omega) hmem
    · exact hne _ (by omega) (by omega) hmem

theorem zero_notMem_text {name : Name} (h : '\x00' ∉ name) : (0 : UInt16) ∉ name.text := by
  intro hmem
  obtain ⟨c, hc, hunit⟩ := List.mem_flatMap.mp hmem
  exact zero_notMem_units (fun heq => h (heq ▸ hc)) hunit

theorem zero_notMem_portable {segs : List JsString} (h : ∀ s ∈ segs, (0 : UInt16) ∉ s) :
    (0 : UInt16) ∉ portable segs := by
  unfold portable
  split
  · decide
  · intro hmem
    obtain hslash | ⟨s, hs, hu⟩ := mem_joinSegments hmem
    · exact absurd hslash (by decide)
    · exact h s hs hu

theorem backslash_notMem_portable {segs : List JsString} :
    ch '\\' ∉ portable segs ↔ ∀ s ∈ segs, ch '\\' ∉ s := by
  unfold portable
  split
  · rename_i hnil
    subst hnil
    exact ⟨fun _ _ hs => absurd hs List.not_mem_nil, fun _ => by decide⟩
  · constructor
    · exact fun h s hs hu => h (mem_joinSegments_of_mem hu hs)
    · intro h hmem
      obtain hslash | ⟨s, hs, hu⟩ := mem_joinSegments hmem
      · exact absurd hslash (by decide)
      · exact h s hs hu

/-- A name without a backslash in front of nothing or of a slash. -/
theorem win32IsAbsolute_append {first : JsString} (hfirst : Plain first)
    (hback : ch '\\' ∉ first) {tail : JsString} (htail : tail = [] ∨ tail.head? = some slash) :
    win32IsAbsolute (first ++ tail) = (isDrive first && !tail.isEmpty) := by
  have hname : ∀ u ∈ first, isWindowsSeparator u = false := by
    intro u hu
    have hslash : u ≠ slash := fun heq => hfirst.noSlash (heq ▸ hu)
    have hbackslash : u ≠ ch '\\' := fun heq => hback (heq ▸ hu)
    simp [isWindowsSeparator, hslash, hbackslash]
  have hslash : isWindowsSeparator slash = true := by decide
  have hcolon : (slash == ch ':') = false := by decide
  match first, hfirst.ne_nil with
  | [a], _ =>
      have ha := hname a (by simp)
      obtain rfl | htail := htail
      · simp [win32IsAbsolute, isDrive, ha]
      · obtain ⟨rest, rfl⟩ := List.head?_eq_some_iff.mp htail
        cases rest <;> simp [win32IsAbsolute, isDrive, ha, hcolon]
  | [a, b], _ =>
      have ha := hname a (by simp)
      obtain rfl | htail := htail
      · simp [win32IsAbsolute, ha]
      · obtain ⟨rest, rfl⟩ := List.head?_eq_some_iff.mp htail
        simp [win32IsAbsolute, isDrive, ha, hslash]
  | a :: b :: c :: rest, _ =>
      have ha := hname a (by simp)
      have hc := hname c (by simp)
      simp [win32IsAbsolute, isDrive, ha, hc]

/-- The conditions on the path are conditions on its names. -/
theorem portable_iff {segs : List JsString} (hplain : ∀ s ∈ segs, Plain s) :
    (ch '\\' ∉ portable segs ∧ win32IsAbsolute (portable segs) = false) ↔ Portable segs := by
  rw [backslash_notMem_portable]
  cases segs with
  | nil =>
      exact ⟨fun _ => ⟨fun _ hs => absurd hs List.not_mem_nil, fun _ _ _ hnil => by simp at hnil⟩,
        fun h => ⟨h.noBackslash, by decide⟩⟩
  | cons first rest =>
      have hfirst := hplain first List.mem_cons_self
      rw [portable, if_neg (List.cons_ne_nil _ _)]
      cases rest with
      | nil =>
          rw [joinSegments, List.intercalate_singleton]
          refine ⟨fun h => ⟨h.1, fun _ _ _ heq => by simp at heq⟩, fun h => ⟨h.noBackslash, ?_⟩⟩
          have habsolute := win32IsAbsolute_append hfirst
            (h.noBackslash first List.mem_cons_self) (.inl (rfl : ([] : JsString) = []))
          rwa [List.append_nil, List.isEmpty_nil, Bool.not_true, Bool.and_false] at habsolute
      | cons second rest =>
          have habsolute : ch '\\' ∉ first →
              win32IsAbsolute (joinSegments (first :: second :: rest)) = isDrive first := by
            intro hback
            rw [joinSegments, List.intercalate_cons_cons, List.append_assoc]
            rw [win32IsAbsolute_append hfirst hback (.inr rfl)]
            simp
          constructor
          · rintro ⟨hback, hnot⟩
            refine ⟨hback, ?_⟩
            rintro _ _ _ ⟨⟩
            exact (habsolute (hback first List.mem_cons_self)).symm.trans hnot
          · intro h
            refine ⟨h.noBackslash, ?_⟩
            rw [habsolute (h.noBackslash first List.mem_cons_self)]
            exact h.noDrive first second rest rfl

/-- The path of plain names comes back exactly when the names are portable. -/
theorem readdressed_iff {v : Volume} {root : Path} (hroot : root.Plain) {segs : List JsString}
    (hplain : ∀ s ∈ segs, Plain s) (hnul : ∀ s ∈ segs, (0 : UInt16) ∉ s) {entry : Path}
    (hentry : v.locate false (target root segs) = .ok entry) :
    Readdressed v root.text (portable segs) entry ↔ Portable segs := by
  have hnul' := zero_notMem_portable hnul
  rw [← portable_iff hplain]
  constructor
  · intro h
    exact (normalizeRelativePath_portable hplain hnul' fun _ => rfl).mp
      (h.accepted true fun _ => rfl)
  · intro h
    have haccepted : ∀ allowRoot, (portable segs = dot → allowRoot = true) →
        normalizeRelativePath (portable segs) allowRoot = .ok (portable segs) := by
      intro allowRoot hdot
      refine (normalizeRelativePath_portable hplain hnul' fun hnil => hdot ?_).mpr h
      rw [hnil, portable, if_pos rfl]
    refine ⟨haccepted, fun allowRoot hdot entry' => ?_⟩
    have hcandidate : candidate root.text (portable segs) = target root segs :=
      candidate_eq hroot hplain
    constructor
    · rintro ⟨normal, hnormal, hlocate⟩
      obtain rfl := Except.ok.inj ((haccepted allowRoot hdot).symm.trans hnormal)
      rw [hcandidate, hentry] at hlocate
      exact (Except.ok.inj hlocate).symm
    · rintro rfl
      exact ⟨_, haccepted allowRoot hdot, by rw [hcandidate, hentry]⟩

/-! ## What the operations return -/

theorem portableBelow_portable {segs : List JsString} (h : ∀ s ∈ segs, Plain s) :
    ∀ {names : List Name}, Path.Plain names →
      portableBelow (portable segs) names = filePath segs names
  | [], _ => by
      rw [filePath, List.map_nil, List.append_nil]
      rfl
  | name :: names, hnames => by
      have hname := hnames name List.mem_cons_self
      have hsegs : ∀ s ∈ segs ++ [name.text], Plain s := fun s hs =>
        (List.mem_append.mp hs).elim (h s) fun hs => List.mem_singleton.mp hs ▸ .of_name hname
      have hrest := portableBelow_portable hsegs fun n hn => hnames n (List.mem_cons_of_mem name hn)
      rw [portableBelow, List.foldl_cons, joinPortable_portable h]
      refine hrest.trans ?_
      rw [filePath, filePath, List.map_cons, List.append_assoc]
      rfl

/-- What an operation has found out about the paths that it returns. -/
structure Operation.Traced (op : Operation) (result : op.Result) (service : Service) (v : Volume)
    (root : Path) (segs : List JsString) : Prop where
  record : service.resolveWorkspace op.workspaceId = .ok (some ⟨root.text, .available⟩)
  plain : root.Plain
  segments : ∀ s ∈ segs, Segment s
  path : normalizeRelativePath op.path.1 op.path.2 = .ok (portable segs)
  own : op.ownPath result = portable segs
  found : ∃ entry, v.locate false (target root segs) = .ok entry
  others : ∀ path ∈ op.otherPaths result, v.Legal ∧ ∃ dir names,
    v.locate true (target root segs) = .ok dir ∧ names ≠ [] ∧ (v.node? (dir ++ names)).isSome ∧
    v.locate false (target root (segs ++ names.map Name.text)) = .ok (dir ++ names) ∧
    path = filePath segs names

section
variable {op : Operation} {result : op.Result} {service : Service} {v : Volume} {root : Path}
  {segs : List JsString} (h : op.Traced result service v root segs)
include h

theorem Operation.Traced.plain_segs : ∀ s ∈ segs, Plain s := fun s hs => (h.segments s hs).toPlain

theorem Operation.Traced.candidate_own :
    candidate root.text (op.ownPath result) = target root segs := by
  rw [h.own]
  exact candidate_eq h.plain h.plain_segs

theorem Operation.Traced.names_own {entry : Path} :
    Names v root.text op.path.1 op.path.2 entry ↔
      v.locate false (target root segs) = .ok entry := by
  rw [← h.candidate_own, h.own]
  constructor
  · rintro ⟨normal, hnormal, hlocate⟩
    rwa [Except.ok.inj (h.path.symm.trans hnormal)]
  · exact fun hlocate => ⟨_, h.path, hlocate⟩

/-- Every path of the result is for an entry. -/
theorem Operation.Traced.exists_returns :
    ∀ path ∈ op.ownPath result :: op.otherPaths result,
      ∃ entry, op.Returns result v root.text path entry := by
  intro path hpath
  obtain rfl | hpath := List.mem_cons.mp hpath
  · obtain ⟨entry, hentry⟩ := h.found
    exact ⟨entry, .own (h.names_own.mpr hentry)⟩
  · obtain ⟨hlegal, dir, names, hdir, hne, hnode, -, hfile⟩ := h.others path hpath
    obtain ⟨node, hnode⟩ := Option.isSome_iff_exists.mp hnode
    have hnames : Path.Plain names := fun name hname =>
      (hlegal.below hne hnode name hname).toPlain
    refine ⟨dir ++ names, .below hpath (by rw [h.candidate_own]; exact hdir) hne hnode ?_⟩
    rw [hfile, h.own, portableBelow_portable h.plain_segs hnames]

theorem Operation.Traced.readdressed_iff {path : JsString} {entry : Path}
    (hreturns : op.Returns result v root.text path entry) :
    ∃ names, (∀ name ∈ names, Plain name) ∧ path = portable names ∧
      (Readdressed v root.text path entry ↔ Portable names) := by
  cases hreturns with
  | own hnames =>
      rw [h.own]
      refine ⟨segs, h.plain_segs, rfl, ?_⟩
      exact Filesystem.readdressed_iff h.plain h.plain_segs (fun s hs => (h.segments s hs).noNul)
        (h.names_own.mp hnames)
  | @below _ dir names node hmem hdir hne hnode hpath =>
      obtain ⟨hlegal, dir', names', hdir', hne', hnode', hlocate, hfile⟩ := h.others path hmem
      obtain ⟨node', hnode'⟩ := Option.isSome_iff_exists.mp hnode'
      have hlegal₁ := hlegal.below hne hnode
      have hlegal₂ := hlegal.below hne' hnode'
      have hplain : Path.Plain names := fun name hname => (hlegal₁ name hname).toPlain
      have hplain' : Path.Plain names' := fun name hname => (hlegal₂ name hname).toPlain
      have hall : ∀ s ∈ segs ++ names.map Name.text, Plain s := fun s hs =>
        (List.mem_append.mp hs).elim (h.plain_segs s) (hplain.segment s)
      have hall' : ∀ s ∈ segs ++ names'.map Name.text, Plain s := fun s hs =>
        (List.mem_append.mp hs).elim (h.plain_segs s) (hplain'.segment s)
      rw [h.own, portableBelow_portable h.plain_segs hplain] at hpath
      -- the path string tells the names below the directory
      obtain rfl : names = names' := List.map_injective_iff.mpr text_injective
        (List.append_cancel_left (portable_injective hall hall' (hpath.symm.trans hfile)))
      rw [h.candidate_own] at hdir
      obtain rfl := Except.ok.inj (hdir.symm.trans hdir')
      rw [hpath]
      refine ⟨segs ++ names.map Name.text, hall, rfl, ?_⟩
      refine Filesystem.readdressed_iff h.plain hall (fun s hs => ?_) hlocate
      obtain hs | hs := List.mem_append.mp hs
      · exact (h.segments s hs).noNul
      · obtain ⟨name, hname, rfl⟩ := List.mem_map.mp hs
        exact zero_notMem_text (hlegal₁ name hname).noNul

end

/-- A target that only was looked at. -/
theorem traced_target {op : Operation} {result : op.Result} {service : Service}
    {v : Volume} {root : Path} {segs : List JsString}
    {place : Path} (hroot : service.Root v op.workspaceId root)
    (hsegments : ∀ s ∈ segs, Segment s)
    (hpath : normalizeRelativePath op.path.1 op.path.2 = .ok (portable segs))
    (hleads : Leads v root segs place) (hown : op.ownPath result = portable segs)
    (hothers : ∀ path ∈ op.otherPaths result, ∃ names, names ≠ [] ∧ v.Legal ∧
      v.node? place = some .directory ∧ v.Lands false (place ++ names) ∧
      (v.node? (place ++ names)).isSome ∧ path = filePath segs names) :
    op.Traced result service v root segs where
  record := hroot.record
  plain := hroot.lands.plain
  segments := hsegments
  path := hpath
  own := hown
  found := Volume.locate_noFollow hleads.located
  others path hmem := by
    obtain ⟨names, hne, hlegal, hdirectory, hlands, hnode, rfl⟩ := hothers path hmem
    refine ⟨hlegal, place, names, hleads.located, hne, hnode, ?_, rfl⟩
    have hscalars : (names.map Name.text).map scalars = names := by
      rw [List.map_map]
      exact (List.map_congr_left fun name _ => scalars_flatMap_units name).trans (List.map_id names)
    have hnames : Path.Plain names := fun name hname =>
      hlands.plain name (List.mem_append_right _ hname)
    have hall : ∀ s ∈ segs ++ names.map Name.text, Plain s := fun s hs =>
      (List.mem_append.mp hs).elim (fun hs => (hsegments s hs).toPlain) (hnames.segment s)
    have hbelow := hleads.below (Volume.KeepsWays.refl v) hroot.lands.plain hall hdirectory
      (fun hnil => absurd (List.map_eq_nil_iff.mp hnil) hne) (by rw [hscalars]; exact hlands)
    rwa [hscalars] at hbelow

/-! ## Functions that change nothing -/

theorem uses_hashedFrom {allowed : Call → Prop} {handle : Handle}
    (hread : ∀ position, allowed (.read handle position hashChunkBytes)) :
    ∀ (fuel position : Nat) (hashed : Bytes),
      Async.Uses allowed (hashedFrom handle fuel position hashed)
  | 0, _, _ => Async.uses_throw
  | fuel + 1, position, hashed => by
      unfold hashedFrom
      split
      · exact Async.uses_throw
      · refine Async.uses_bind (Async.uses_request (hread position)) fun chunk => ?_
        split
        · exact Async.uses_pure
        · exact uses_hashedFrom hread fuel _ _

theorem uses_inspectWriteTarget (service : Service) (target path : JsString) :
    Async.Uses ReadOnly (service.inspectWriteTarget target path) := by
  unfold Service.inspectWriteTarget
  refine Async.uses_bind (Async.uses_tryCatch
    (Async.uses_map (Async.uses_request trivial)) fun e => ?_) fun stats => ?_
  · split
    · exact Async.uses_pure
    · exact Async.uses_throw
  split
  · exact Async.uses_pure
  refine Async.uses_bind (uses_failWhen _ _ _ _) fun _ => Async.uses_bind (uses_failWhen _ _ _ _) fun _ => ?_
  refine Async.uses_bind (Async.uses_bind (Async.uses_mapError (Async.uses_request trivial))
    fun handle => ?_) fun _ => Async.uses_pure
  exact Async.uses_bind (Async.uses_tryFinally (uses_hashedFrom (fun _ => trivial) _ _ _)
    (Async.uses_request trivial)) fun _ => Async.uses_pure

theorem uses_readWholeFile (target path : JsString) (size : Nat) :
    Async.Uses ReadOnly (readWholeFile target path size) := by
  unfold readWholeFile
  refine Async.uses_bind (uses_failWhen _ _ _ _) fun _ => ?_
  refine Async.uses_bind (Async.uses_mapError (Async.uses_request trivial)) fun handle => ?_
  refine Async.uses_tryFinally ?_ (Async.uses_request trivial)
  refine Async.uses_bind (Async.uses_request trivial) fun data => ?_
  exact Async.uses_bind (uses_failWhen _ _ _ _) fun _ => Async.uses_pure

theorem uses_patchedContent (service : Service) (options : PatchOptions) :
    Async.Uses ReadOnly (service.patchedContent options) := by
  unfold Service.patchedContent
  refine Async.uses_bind (uses_inspectWriteTarget service _ _) fun initial => ?_
  refine Async.uses_bind (uses_ofExcept _) fun _ => Async.uses_bind (uses_failWhen _ _ _ _) fun _ => ?_
  refine Async.uses_bind (uses_readWholeFile _ _ _) fun source => ?_
  refine Async.uses_bind (uses_ofExcept _) fun _ => Async.uses_bind (uses_failWhen _ _ _ _) fun _ => ?_
  refine Async.uses_bind ?_ fun text => ?_
  · unfold decodeUtf8
    split
    · exact Async.uses_pure
    · exact Async.uses_throw
  refine Async.uses_bind (uses_ofExcept _) fun planned => ?_
  exact Async.uses_bind (uses_failWhen _ _ _ _) fun _ => Async.uses_pure

/-- The handler of a failing commit throws. -/
theorem yields_patchFailure {outside : Nat → Turn} {service : Service} {options : PatchOptions}
    {error : Thrown} {Q : WriteResult → Volume → Prop} {v : Volume} :
    Yields outside (service.patchFailure options error) Q v := by
  unfold Service.patchFailure
  split
  · refine yields_bind (Yields.mk fun w _ => Async.wp_iff.mpr ?_)
    split
    · exact yields_throw _
    · trivial
  · split
    · split <;> exact yields_throw _
    · exact yields_throw _

theorem mem_pageOf {path : JsString} {cursor : Option ListCursor} {limit : Nat}
    {listed : List ListEntry} {entry : ListEntry}
    (h : entry ∈ (pageOf path cursor limit (sortEntries listed)).entries) : entry ∈ listed :=
  (perm_sortEntries listed).mem_iff.mp (List.mem_of_mem_drop (List.mem_of_mem_take h))

/-- A target that was written. -/
theorem traced_aims {op : Operation} {result : op.Result} {service : Service} {v v' : Volume}
    {root : Path} {segs : List JsString} {dir : Path} {name : JsString}
    (haims : service.Aims v op.workspaceId op.path.1 root segs dir name)
    (hroot : op.path.2 = false) (hown : op.ownPath result = portable (segs ++ [name]))
    (hothers : op.otherPaths result = []) {options : WriteOptions} {write : WriteResult}
    (hsize : Name.size (scalars name) ≤ nameMax)
    (hwritten : Written service options v (dir ++ [scalars name]) write v') :
    op.Traced result service v' root (segs ++ [name]) := by
  obtain ⟨mode, hnode⟩ := hwritten.file
  obtain ⟨hroot', hleads⟩ := haims.leads_entry hsize hwritten.ways hnode (by simp)
  refine traced_target hroot' haims.segments (by rw [hroot, haims.path]) hleads hown ?_
  intro path hmem
  rw [hothers] at hmem
  exact absurd hmem List.not_mem_nil

section
variable {outside : Nat → Turn} (halone : Alone outside) {service : Service} {v : Volume}
include halone

theorem yields_readRange {handle : Handle} {path : JsString} {offset maxBytes : Nat} :
    Yields outside (readRange handle path offset maxBytes)
      (fun result v' => v' = v ∧ result.path = path) v := by
  unfold readRange
  refine yields_bind ?_
  refine yields_call halone fun stats v' hstat => ?_
  have hvol : v' = v := (congrArg Prod.snd hstat).symm
  rw [hvol]
  refine yields_bind (yields_failWhen fun _ => ?_)
  refine yields_bind (yields_failWhen fun _ => ?_)
  refine yields_bind ?_
  have hdata : Yields outside (if min maxBytes (stats.size - offset) = 0 then pure []
      else Handle.read handle offset (min maxBytes (stats.size - offset))) (fun _ v' => v' = v) v := by
    split
    · exact yields_pure rfl
    · exact yields_call halone fun _ v' hread => (congrArg Prod.snd hread).symm
  refine hdata.mono fun data v' hvol => ?_
  rw [hvol]
  refine yields_bind ?_
  have hcontent : Yields outside (if classifyBuffer data = .text then some <$> decodeUtf8 data
      else pure none) (fun _ v' => v' = v) v := by
    unfold decodeUtf8
    split
    · refine yields_map ?_
      split
      · exact yields_pure rfl
      · exact yields_throw _
    · exact yields_pure rfl
  exact hcontent.mono fun content v' hvol => yields_pure ⟨hvol, rfl⟩

theorem traced_read {request : ReadRequest} :
    Yields outside (service.read request)
      (fun result v' => ∃ root segs,
        (Operation.read request).Traced result service v' root segs) v := by
  unfold Service.read
  refine yields_bind (yields_accessWorkspace halone fun root hroot => ?_)
  refine yields_bind (yields_ofExcept fun path hpath => ?_)
  obtain ⟨segs, hsegments, -, rfl⟩ := normalizeRelativePath_ok hpath
  refine yields_bind (yields_ofExcept fun offset _ => ?_)
  refine yields_bind (yields_ofExcept fun maxBytes _ => ?_)
  refine yields_bind (yields_resolveExistingPath halone hroot.lands.plain
    (fun s hs => (hsegments s hs).toPlain) fun place hleads => ?_)
  refine yields_bind (yields_mapError ?_)
  refine yields_call halone fun handle v' hopen => ?_
  obtain ⟨rfl, -, -⟩ := perform_openRead.mp hopen
  refine yields_tryFinally ((yields_readRange halone).mono ?_)
  rintro result v'' ⟨rfl, hown⟩
  refine yields_call halone fun _ v' hclose => ?_
  obtain rfl : v'' = v' := congrArg Prod.snd hclose
  exact ⟨root, segs, traced_target hroot hsegments hpath hleads hown
    fun path hmem => absurd hmem List.not_mem_nil⟩

theorem yields_listEntries {path absolutePath : JsString} : ∀ dirents : List Dirent,
    Yields outside (listEntries path absolutePath dirents)
      (fun listed v' => v' = v ∧ ∀ entry ∈ listed, ∃ dirent ∈ dirents,
        entry.path = joinPortable path dirent.name) v
  | [] => yields_pure ⟨rfl, fun entry hmem => absurd hmem List.not_mem_nil⟩
  | dirent :: rest => by
      unfold listEntries
      refine yields_bind ?_
      have hsize : Yields outside (readEntryMetadata (join absolutePath dirent.name)
          (dirent.type = .symlink)) (fun _ v' => v' = v) v := by
        unfold readEntryMetadata
        split
        · exact yields_pure rfl
        · refine yields_bind ?_
          refine yields_call halone fun stats v' hlstat => yields_pure ?_
          exact (congrArg Prod.snd hlstat).symm
      refine hsize.mono fun size v' hvol => ?_
      rw [hvol]
      refine yields_bind ((yields_listEntries rest).mono ?_)
      rintro listed v'' ⟨hvol', hlisted⟩
      refine yields_pure ⟨hvol', fun entry hmem => ?_⟩
      obtain rfl | hmem := List.mem_cons.mp hmem
      · exact ⟨dirent, List.mem_cons_self, rfl⟩
      · obtain ⟨dirent', hdirent, hpath⟩ := hlisted entry hmem
        exact ⟨dirent', List.mem_cons_of_mem _ hdirent, hpath⟩

theorem traced_list (hlegal : v.Legal) {request : ListRequest} :
    Yields outside (service.list request)
      (fun result v' => ∃ root segs,
        (Operation.list request).Traced result service v' root segs) v := by
  unfold Service.list
  refine yields_bind (yields_accessWorkspace halone fun root hroot => ?_)
  refine yields_bind (yields_ofExcept fun path hpath => ?_)
  obtain ⟨segs, hsegments, -, rfl⟩ := normalizeRelativePath_ok hpath
  have hplain : ∀ s ∈ segs, Plain s := fun s hs => (hsegments s hs).toPlain
  refine yields_bind (yields_ofExcept fun limit _ => ?_)
  refine yields_bind (yields_ofExcept fun cursor _ => ?_)
  refine yields_bind (yields_resolveExistingPath halone hroot.lands.plain hplain
    fun place hleads => ?_)
  refine yields_bind (yields_mapError ?_)
  refine yields_call halone fun dirents v' hreaddir => ?_
  obtain ⟨rfl, dir, hlocate, hdirectory, rfl⟩ := perform_readdir.mp hreaddir
  obtain rfl := Except.ok.inj ((Volume.locate_text hleads.lands).symm.trans hlocate)
  refine yields_bind ((yields_listEntries halone _).mono ?_)
  rintro listed v' ⟨rfl, hlisted⟩
  refine yields_pure ⟨root, segs, traced_target hroot hsegments hpath hleads rfl ?_⟩
  intro path hmem
  obtain ⟨entry, hentry, rfl⟩ := List.mem_map.mp hmem
  obtain ⟨dirent, hdirent, hjoin⟩ := hlisted entry (mem_pageOf hentry)
  obtain ⟨name, node, hnode, rfl⟩ := Volume.mem_children.mp hdirent
  have hname := hlegal.concat hnode
  refine ⟨[name], List.cons_ne_nil _ _, hlegal, hdirectory,
    ⟨(Volume.Stands.mk hleads.lands.toReached hdirectory).concat hname.toPlain hname.short, fun _ _ => rfl⟩, by simp [hnode], ?_⟩
  rw [hjoin, joinPortable_portable hplain]
  rfl

theorem traced_search (hlegal : v.Legal) {request : SearchRequest} :
    Yields outside (service.search request)
      (fun result v' => ∃ root segs,
        (Operation.search request).Traced result service v' root segs) v := by
  refine (yields_search halone hlegal).mono ?_
  rintro result v' ⟨rfl, site, rfl, rfl, rfl, hsearches, hsound, s, rfl, hadvances, -⟩
  refine ⟨site.root, site.segs, traced_target hsearches.available hsearches.segments
    hsearches.path hsearches.leads rfl ?_⟩
  intro path hmem
  obtain ⟨m, hm, rfl⟩ := List.mem_map.mp hmem
  obtain hm | ⟨names, hgenuine⟩ := hadvances.added m hm
  · exact absurd hm List.not_mem_nil
  obtain ⟨bytes, mode, hnode⟩ := hgenuine.file
  have hlands := hgenuine.visits.lands
  refine ⟨names, hgenuine.visits.ne_nil, hsound.legal, ?_,
    ⟨hlands.toReached, fun _ _ => rfl⟩, by simp [hnode], hgenuine.path⟩
  obtain ⟨name, rest, rfl⟩ := List.exists_cons_of_ne_nil hgenuine.visits.ne_nil
  exact hlands.directories site.start name ⟨rest, by simp⟩

variable (hhonest : Honest outside)
include hhonest

theorem traced_write {uuid : JsString} {request : WriteRequest} :
    Yields outside (service.write uuid request)
      (fun result v' => ∃ root segs,
        (Operation.write uuid request).Traced result service v' root segs) v := by
  unfold Service.write
  refine yields_bind (yields_prepareWrite halone fun root segs dir name expected haims => ?_)
  refine yields_writeAtomic halone hhonest haims.stands haims.plain_name rfl
    fun result v' hsize hwritten => ⟨root, segs ++ [name], ?_⟩
  exact traced_aims haims rfl hwritten.path rfl hsize hwritten

theorem traced_patch {uuid : JsString} {request : PatchRequest} :
    Yields outside (service.patch uuid request)
      (fun result v' => ∃ root segs,
        (Operation.patch uuid request).Traced result service v' root segs) v := by
  unfold Service.patch
  refine yields_bind ?_
  unfold Service.preparePatch
  refine yields_bind (yields_ofExcept fun expected _ => ?_)
  refine yields_bind (yields_ofExcept fun edits _ => ?_)
  refine yields_bind (yields_accessWorkspace halone fun root hroot => ?_)
  refine yields_bind (yields_ofExcept fun path hpath => ?_)
  refine yields_bind (yields_writeTarget halone hroot hpath fun segs dir name haims heq => ?_)
  subst heq
  refine yields_pure (yields_bind ?_)
  refine (yields_readOnly halone (uses_patchedContent service _)).mono fun patched v' hvol => ?_
  rw [hvol]
  refine yields_bind (yields_tryCatch ?_ fun e v' => yields_patchFailure)
  refine yields_writeAtomic halone hhonest haims.stands haims.plain_name rfl
    fun result v' hsize hwritten => yields_pure ⟨root, segs ++ [name], ?_⟩
  exact traced_aims haims rfl rfl rfl hsize hwritten

theorem yields_traced (op : Operation) (hlegal : v.Legal) :
    Yields outside (op.run service)
      (fun result v' => ∃ root segs, op.Traced result service v' root segs) v := by
  cases op with
  | read request => exact traced_read halone
  | list request => exact traced_list halone hlegal
  | search request => exact traced_search halone hlegal
  | write uuid request => exact traced_write halone hhonest
  | patch uuid request => exact traced_patch halone hhonest

end

/-! ## Results -/

/-- Every path string of a result is for an entry, and is portable just when it
leads to that entry again. -/
structure Operation.Addressed (op : Operation) (result : op.Result) (v : Volume)
    (root : JsString) : Prop where
  entries : ∀ path ∈ op.ownPath result :: op.otherPaths result,
    ∃ entry, op.Returns result v root path entry
  readdressed : ∀ path entry, op.Returns result v root path entry →
    ∃ names, (∀ name ∈ names, Plain name) ∧ path = portable names ∧
      (Readdressed v root path entry ↔ Portable names)

/-- The paths of two entries that lead back never lead to one entry. -/
theorem Readdressed.distinct {v : Volume} {root path path' : JsString} {entry entry' : Path}
    (h : Readdressed v root path entry) (h' : Readdressed v root path' entry')
    (hne : entry ≠ entry') {allowRoot : Bool} (hdot : path = dot → allowRoot = true)
    (hdot' : path' = dot → allowRoot = true) (found : Path) :
    ¬ (Names v root path allowRoot found ∧ Names v root path' allowRoot found) := by
  rintro ⟨hfound, hfound'⟩
  exact hne (((h.resolved allowRoot hdot found).mp hfound).symm.trans
    ((h'.resolved allowRoot hdot' found).mp hfound'))

/-- An operation that succeeds, whatever calls failed in it: each of its path
strings is taken back for the same entry just when the names on the way are
portable. -/
theorem paths_readdressed {outside : Nat → Turn} (halone : Alone outside)
    (hhonest : Honest outside) {service : Service} {op : Operation} {w w' : World}
    (hlegal : w.vol.Legal) {result : op.Result}
    (hrun : Prog.run (answer outside) (op.run service).run w = (.ok result, w')) :
    ∃ root, service.resolveWorkspace op.workspaceId = .ok (some ⟨root, .available⟩) ∧
      op.Addressed result w'.vol root := by
  obtain ⟨root, segs, htraced⟩ := (yields_traced halone hhonest op hlegal).of_run hrun
  exact ⟨root.text, htraced.record, htraced.exists_returns,
    fun path entry hreturns => htraced.readdressed_iff hreturns⟩

/-- The listing of the root of a workspace. -/
def rootListing : ListRequest := ⟨js "ws", none, none, none⟩

def listRoot (v : Volume) : Except Thrown ListResult × World :=
  Prog.run (answer still) (oneWorkspace.list rootListing).run ⟨v, []⟩

theorem listRoot_nested :
    (listRoot nested).1 = .ok ⟨js ".", [⟨js "d", js "d", .directory, none⟩], none⟩ := by
  decide +kernel

theorem paths_readdressed_nested :
    ∃ root, oneWorkspace.resolveWorkspace (js "ws") = .ok (some ⟨root, .available⟩) ∧
      (Operation.list rootListing).Addressed
        ⟨js ".", [⟨js "d", js "d", .directory, none⟩], none⟩ (listRoot nested).2.vol root :=
  @paths_readdressed _ alone_still honest_still _ (.list rootListing) _ _ nested_legal _
    (Prod.ext listRoot_nested rfl)

/-- A workspace with a file whose name has a backslash, and a file whose path
has a slash there. -/
def backslashed : Volume :=
  ⟨⟨[(["ws".toList], .directory), (["ws".toList, "a".toList], .directory),
    (["ws".toList, "a".toList, "b".toList], .file [1] 0o644),
    (["ws".toList, "a\\b".toList], .file [2] 0o644)], by
    change [["ws".toList], ["ws".toList, "a".toList], ["ws".toList, "a".toList, "b".toList],
      ["ws".toList, "a\\b".toList]].Nodup
    decide⟩, 0o022⟩

/-- The path that is returned for the one file leads to the other. -/
theorem paths_readdressed_backslash : ∃ result : ListResult,
    (listRoot backslashed).1 = .ok result ∧
    (Operation.list rootListing).Returns result backslashed (js "/ws") (js "a\\b")
      ["ws".toList, "a\\b".toList] ∧
    Names backslashed (js "/ws") (js "a\\b") false ["ws".toList, "a".toList, "b".toList] := by
  refine ⟨⟨js ".", [⟨js "a", js "a", .directory, none⟩,
    ⟨js "a\\b", js "a\\b", .file, some 1⟩], none⟩, by decide +kernel, ?_, ?_⟩
  · have hdirectory : backslashed.locate true (js "/ws") = .ok ["ws".toList] := rfl
    have hfile : backslashed.node? (["ws".toList] ++ ["a\\b".toList]) = some (.file [2] 0o644) := rfl
    exact .below (List.mem_cons_of_mem _ List.mem_cons_self) hdirectory (List.cons_ne_nil _ _) hfile
      rfl
  · exact ⟨js "a/b", rfl, rfl⟩

end Benchhand.Filesystem
