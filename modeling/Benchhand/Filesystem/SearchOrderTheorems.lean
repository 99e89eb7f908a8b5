/-
Benchhand.Filesystem.SearchOrderTheorems — the order of the matches of a search.

A directory is sorted before it is walked, so the order in which it is
enumerated does not matter (`search_enumerated`). The matches that an entry
adds all lie at or below it, and the entries come in the order of their names,
so the matches come in the order of their paths; within a file they come in the
order of the text, and those on one line are apart (`search_ordered`).
-/
import Benchhand.Filesystem.SearchFilesTheorems
import Benchhand.Process.Alike
import Benchhand.Store.Sorting

namespace Benchhand.Filesystem

open Text Posix Process Store

/-! ## Enumeration -/

/-- Each directory is enumerated in another order. -/
def enumerated (order : World → JsString → List Dirent → List Dirent)
    (h : Handler Call Answer World) : Handler Call Answer World
  | .readdir path, w => ((h (.readdir path) w).1.map (order w path), (h (.readdir path) w).2)
  | c, w => h c w

theorem enumerated_of_ne {order : World → JsString → List Dirent → List Dirent}
    {h : Handler Call Answer World} {c : Call} (hc : ∀ path, c ≠ .readdir path) (w : World) :
    enumerated order h c w = h c w := by
  cases c with
  | readdir path => exact absurd rfl (hc path)
  | _ => rfl

theorem byKey_dirents : ByKey (fun entry : Dirent => codePoints entry.name) fun left right =>
    compareCodePoints left.name right.name ≤ 0 :=
  fun left right => compareCodePoints_le_iff left.name right.name

/-- The names in a directory are distinct. -/
theorem nodup_children (v : Volume) (dir : Path) :
    ((v.children dir).map Dirent.name).Nodup := by
  have hkeys : (v.nodes.entries.map Prod.fst).Nodup := v.nodes.nodup
  rw [List.Nodup, List.pairwise_map] at hkeys ⊢
  refine List.Pairwise.filterMap _ ?_ hkeys
  rintro ⟨path, node⟩ ⟨path', node'⟩ hne entry hentry entry' hentry' heq
  dsimp only at hne hentry hentry'
  cases hlast : path.getLast? with
  | none => simp [hlast] at hentry
  | some name =>
      cases hlast' : path'.getLast? with
      | none => simp [hlast'] at hentry'
      | some name' =>
          simp only [hlast] at hentry
          simp only [hlast'] at hentry'
          split at hentry
          · split at hentry'
            · rename_i hdir hdir'
              obtain rfl := Option.some.inj hentry
              obtain rfl := Option.some.inj hentry'
              refine hne ?_
              rw [← List.dropLast_append_getLast? name hlast, hdir,
                ← List.dropLast_append_getLast? name' hlast', hdir', text_injective heq]
            · cases hentry'
          · cases hentry

/-- Sorting undoes the order of an enumeration. -/
theorem sortDirents_order {entries entries' : List Dirent} (hperm : entries'.Perm entries)
    (hnodup : (entries.map Dirent.name).Nodup) : sortDirents entries' = sortDirents entries := by
  refine (insertionSort_eq_of_perm byKey_dirents hperm.symm fun a ha b hb heq => ?_).symm
  exact List.inj_on_of_nodup_map hnodup ha hb (codePoints_injective heq)

/-- The children of a directory, sorted. -/
theorem pairwise_sortDirents (v : Volume) (dir : Path) :
    ((sortDirents (v.children dir)).map Dirent.name).Pairwise fun a b =>
      compareCodePoints a b < 0 := by
  have hnodup : ((sortDirents (v.children dir)).map Dirent.name).Nodup :=
    ((List.perm_insertionSort _ _).map _).nodup_iff.mpr (nodup_children v dir)
  have hsorted : ((sortDirents (v.children dir)).map Dirent.name).Pairwise fun a b =>
      codePoints a ≤ codePoints b :=
    List.pairwise_map.mpr (pairwise_insertionSort byKey_dirents _)
  refine (hsorted.and hnodup).imp ?_
  rintro a b ⟨hle, hne⟩
  exact (compareCodePoints_neg_iff a b).mpr
    (lt_of_le_of_ne hle fun heq => hne (codePoints_injective heq))

section
variable {outside : Nat → Turn} {order : World → JsString → List Dirent → List Dirent}
  (horder : ∀ w path entries, (order w path entries).Perm entries)

/-- Both handlers run it the same. -/
abbrev Steady (outside : Nat → Turn) (order : World → JsString → List Dirent → List Dirent)
    {α : Type} (p : Async α) : Prop :=
  Async.Same (enumerated order (answer outside)) (answer outside) p

theorem steady_call {c : Call} (hc : ∀ path, c ≠ .readdir path) :
    Steady outside order (call c) :=
  Async.same_request (fun w => enumerated_of_ne hc w) _

theorem steady_failWhen {condition : Bool} {code : ErrorCode} {path : Option JsString}
    {message : JsString} : Steady outside order (failWhen condition code path message) := by
  unfold failWhen
  split
  · exact Async.same_throw _
  · exact Async.same_pure _

theorem steady_ofExcept {α : Type} (r : Except FilesystemError α) :
    Steady outside order (ofExcept r) := fun _ => rfl

theorem steady_accessWorkspace (service : Service) (workspaceId : JsString) :
    Steady outside order (service.accessWorkspace workspaceId) := by
  unfold Service.accessWorkspace
  split
  · exact Async.same_throw _
  · exact Async.same_throw _
  · refine steady_failWhen.bind fun _ => ?_
    refine (Async.same_tryCatch (steady_call fun _ => Call.noConfusion)
      fun e => Async.same_throw _).bind fun root => ?_
    exact steady_failWhen.bind fun _ => Async.same_pure _

theorem steady_resolveExistingPath (root portablePath : JsString) :
    Steady outside order (resolveExistingPath root portablePath) := by
  unfold resolveExistingPath
  refine steady_failWhen.bind fun _ => ?_
  refine (Async.same_tryCatch (steady_call fun _ => Call.noConfusion)
    fun e => Async.same_throw _).bind fun canonical => ?_
  exact steady_failWhen.bind fun _ => Async.same_pure _

theorem steady_attempt {c : Call} (hc : ∀ path, c ≠ .readdir path) :
    Steady outside order (tryCatch (some <$> call c) fun _ => pure none) :=
  Async.same_tryCatch ((steady_call hc).map _) fun _ => Async.same_pure _

theorem steady_searchOpenFile (options : SearchOptions) (query relativePath : JsString)
    (handle : Handle) (state : SearchState) :
    Steady outside order (searchOpenFile options query relativePath handle state) := by
  unfold searchOpenFile
  refine (steady_call fun _ => Call.noConfusion).bind fun stats => ?_
  split
  · exact Async.same_pure _
  split
  · exact Async.same_pure _
  have hread : Steady outside order
      (if stats.size = 0 then pure [] else Handle.read handle 0 stats.size) := by
    split
    · exact Async.same_pure _
    · exact steady_call fun _ => Call.noConfusion
  refine hread.bind fun data => ?_
  split
  · exact Async.same_pure _
  · refine Async.Same.bind ?_ fun text => Async.same_pure _
    unfold decodeUtf8
    split
    · exact Async.same_pure _
    · exact Async.same_throw _

theorem steady_searchFile (options : SearchOptions) (relativePath childPath : JsString)
    (state : SearchState) :
    Steady outside order (searchFile options relativePath childPath state) := by
  unfold searchFile
  split
  · exact Async.same_pure _
  refine (steady_attempt fun _ => Call.noConfusion).bind fun canonicalFile => ?_
  split
  · exact Async.same_pure _
  split
  · exact Async.same_pure _
  refine (steady_attempt fun _ => Call.noConfusion).bind fun handle => ?_
  split
  · exact Async.same_pure _
  exact Async.same_tryFinally (steady_searchOpenFile _ _ _ _ _)
    (steady_call fun _ => Call.noConfusion)

/-- The walk below a directory, if there is one. -/
def SteadyBelow (outside : Nat → Turn) (order : World → JsString → List Dirent → List Dirent)
    (descend : Option Descent) : Prop :=
  ∀ walk ∈ descend, ∀ directory directoryPath state,
    Steady outside order (walk directory directoryPath state)

variable {service : Service} {options : SearchOptions}

theorem steady_searchEntry {descend : Option Descent}
    (hdescend : SteadyBelow outside order descend) (directory directoryPath : JsString)
    (entry : Dirent) (state : SearchState) :
    Steady outside order
      (service.searchEntry options descend directory directoryPath entry state) := by
  unfold Service.searchEntry
  dsimp only
  cases entry.type with
  | symlink => exact Async.same_pure _
  | other => exact Async.same_pure _
  | directory =>
      unfold searchDirectory
      dsimp only
      cases descend with
      | none => exact Async.same_pure _
      | some walk =>
          refine (steady_attempt fun _ => Call.noConfusion).bind fun canonicalDirectory => ?_
          split
          · exact Async.same_pure _
          split
          · exact Async.same_pure _
          · exact hdescend walk rfl _ _ _
  | file =>
      dsimp only
      split
      · exact Async.same_pure _
      · exact steady_searchFile _ _ _ _

theorem steady_searchEntries {descend : Option Descent}
    (hdescend : SteadyBelow outside order descend) (directory directoryPath : JsString) :
    ∀ (entries : List Dirent) (state : SearchState),
      Steady outside order
        (service.searchEntries options descend directory directoryPath entries state)
  | [], _ => Async.same_pure _
  | entry :: rest, state => by
      unfold Service.searchEntries
      dsimp only
      split
      · exact Async.same_pure _
      · exact (steady_searchEntry hdescend _ _ _ _).bind fun state' =>
          steady_searchEntries hdescend directory directoryPath rest state'

/-- A directory is enumerated as the children of a place. -/
theorem readdir_answer {w : World} {path : JsString} {entries : List Dirent}
    (h : (answer outside (.readdir path) w).1 = .ok entries) :
    ∃ (v : Volume) (dir : Path), entries = v.children dir := by
  unfold answer at h
  dsimp only at h
  split at h
  · cases h
  · obtain ⟨-, dir, -, -, rfl⟩ := perform_readdir.mp (Prod.ext h rfl)
    exact ⟨_, dir, rfl⟩

include horder

/-- A directory that is read and then sorted. -/
theorem steady_sorted (directory : JsString) :
    Steady outside order (sortDirents <$> readdir directory) := by
  intro w
  rw [Async.run_map, Async.run_map]
  refine Prod.ext ?_ rfl
  change Except.map sortDirents (Except.mapError Thrown.errno
      ((answer outside (.readdir directory) w).1.map (order w directory))) =
    Except.map sortDirents (Except.mapError Thrown.errno (answer outside (.readdir directory) w).1)
  cases hentries : (answer outside (.readdir directory) w).1 with
  | error e => rfl
  | ok entries =>
      obtain ⟨v, dir, rfl⟩ := readdir_answer hentries
      exact congrArg Except.ok (sortDirents_order (horder _ _ _) (nodup_children v dir))

theorem steady_searchIn {descend : Option Descent} (hdescend : SteadyBelow outside order descend)
    (directory directoryPath : JsString) (state : SearchState) :
    Steady outside order (service.searchIn options descend directory directoryPath state) := by
  have hsorted : service.searchIn options descend directory directoryPath state =
      if maxSearchEntries ≤ state.scannedEntries then return { state with truncated := true }
      else sortDirents <$> readdir directory >>= fun entries =>
        service.searchEntries options descend directory directoryPath entries state := by
    rw [Service.searchIn, bind_map_left]
  rw [hsorted]
  split
  · exact Async.same_pure _
  · exact (steady_sorted horder directory).bind fun entries =>
      steady_searchEntries hdescend directory directoryPath entries state

theorem steady_walkSearch : ∀ (levels : Nat) (directory directoryPath : JsString)
    (state : SearchState),
    Steady outside order (service.walkSearch options levels directory directoryPath state)
  | 0, directory, directoryPath, state =>
      steady_searchIn horder (fun walk hwalk => (by cases hwalk)) directory directoryPath state
  | levels + 1, directory, directoryPath, state => by
      refine steady_searchIn horder (fun walk hwalk => ?_) directory directoryPath state
      obtain rfl := Option.some.inj hwalk
      exact steady_walkSearch levels

/-- A search does not depend on how directories are enumerated. -/
theorem search_enumerated (service : Service) (request : SearchRequest) (w : World) :
    Prog.run (enumerated order (answer outside)) (service.search request).run w =
      Prog.run (answer outside) (service.search request).run w := by
  have hprepare : Steady outside order (service.prepareSearch request) := by
    unfold Service.prepareSearch
    refine (steady_accessWorkspace service request.workspaceId).bind fun workspaceRoot => ?_
    refine (steady_ofExcept _).bind fun path => ?_
    refine (steady_ofExcept _).bind fun glob => ?_
    refine (steady_ofExcept _).bind fun query => ?_
    refine (steady_ofExcept _).bind fun maxResults => ?_
    refine (steady_ofExcept _).bind fun maxBytes => ?_
    refine (steady_ofExcept _).bind fun maxDepth => ?_
    exact (steady_ofExcept _).bind fun maxFileBytes => Async.same_pure _
  refine Async.Same.bind hprepare (fun prepared => Async.Same.bind ?_ fun state =>
    Async.same_pure _) w
  exact (steady_resolveExistingPath _ _).bind fun absolutePath =>
    steady_walkSearch horder _ _ _ _

end

/-! ## The order of matches -/

/-- The paths in the order of their segments. -/
def PathBefore (path path' : JsString) : Prop :=
  List.Lex (fun a b => compareCodePoints a b < 0) (path.splitOn slash) (path'.splitOn slash)

/-- The order of matches: by path, then by line, then by column. -/
def SearchMatch.Before (m m' : SearchMatch) : Prop :=
  PathBefore m.path m'.path ∨ m.path = m'.path ∧ ∃ line column line' column',
    m.line = some line ∧ m.column = some column ∧ m'.line = some line' ∧ m'.column = some column' ∧
      (line < line' ∨ line = line' ∧ column < column')

/-- Two matches do not overlap. -/
def SearchMatch.Apart (query : Option JsString) (m m' : SearchMatch) : Prop :=
  m.path = m'.path → m.line = m'.line → ∀ q column column', query = some q →
    m.column = some column → m'.column = some column' → column + q.length ≤ column'

/-- Strictly in order, and apart. -/
def InOrder (query : Option JsString) (found : List SearchMatch) : Prop :=
  found.Pairwise fun m m' => m.Before m' ∧ m.Apart query m'

theorem pairwise_zipIdx {α : Type} (l : List α) :
    l.zipIdx.Pairwise fun a b => a.2 < b.2 := by
  have hindex : (l.zipIdx.map Prod.snd).Pairwise (· < ·) := by
    rw [List.zipIdx_map_snd]
    exact List.pairwise_lt_range'
  exact List.pairwise_map.mp hindex

/-- The matches of a text are in order. -/
theorem inOrder_textMatches (relativePath text : JsString) {query : JsString} (hquery : query ≠ []) :
    InOrder (some query) (textMatches relativePath query text) := by
  have hpos := List.length_pos_iff.mpr hquery
  refine List.pairwise_flatMap.mpr ⟨fun ⟨line, lineIndex⟩ _ => ?_, ?_⟩
  · refine List.pairwise_map.mpr ((pairwise_occurrencesFrom _ _).imp fun {i j} hij => ⟨?_, ?_⟩)
    · exact .inr ⟨rfl, _, _, _, _, rfl, rfl, rfl, rfl, .inr ⟨rfl, by omega⟩⟩
    · intro _ _ q column column' hq hcolumn hcolumn'
      obtain rfl := Option.some.inj hq
      obtain rfl := Option.some.inj hcolumn
      obtain rfl := Option.some.inj hcolumn'
      omega
  · refine (pairwise_zipIdx _).imp ?_
    rintro ⟨line, lineIndex⟩ ⟨line', lineIndex'⟩ hlt m hm m' hm'
    obtain ⟨found, -, rfl⟩ := List.mem_map.mp hm
    obtain ⟨found', -, rfl⟩ := List.mem_map.mp hm'
    dsimp only at hlt
    refine ⟨.inr ⟨rfl, _, _, _, _, rfl, rfl, rfl, rfl, .inl (by omega)⟩, fun _ hline => ?_⟩
    have heq : lineIndex + 1 = lineIndex' + 1 := Option.some.inj hline
    omega

/-! ## What a match reports -/

/-- Where a match stands in the bytes of its file. -/
def SearchMatch.Stands (m : SearchMatch) (query : Option JsString) (bytes : Bytes) : Prop :=
  match query with
  | none => m.line = none ∧ m.column = none
  | some query => ∃ text lineIndex line column, decodeUtf8Fatal bytes = some text ∧
      (text.splitOn (ch '\n'))[lineIndex]? = some line ∧ OccursAt line query column ∧
        m.line = some (lineIndex + 1) ∧ m.column = some (column + 1)

/-- A match of a regular file below the path of the search. -/
structure SearchSite.Reports (site : SearchSite) (m : SearchMatch) (names : List Name) : Prop where
  below : names ≠ []
  plain : Path.Plain names
  file : ∃ bytes mode, site.vol.node? (site.start ++ names) = some (.file bytes mode) ∧
    m.Stands site.options.query bytes
  path : m.path = filePath site.segs names
  glob : site.service.minimatch m.path site.options.glob = true

theorem stands_textMatches {relativePath query text : JsString} {bytes : Bytes}
    (htext : decodeUtf8Fatal bytes = some text) {m : SearchMatch}
    (hm : m ∈ textMatches relativePath query text) : m.Stands (some query) bytes := by
  obtain ⟨⟨line, lineIndex⟩, hline, hm⟩ := List.mem_flatMap.mp hm
  obtain ⟨found, hfound, rfl⟩ := List.mem_map.mp hm
  exact ⟨text, lineIndex, line, found, htext, List.mem_zipIdx_iff_getElem?.mp hline,
    (occursAt_of_mem hfound).2, rfl, rfl⟩

/-- The matches that are added to a state: in order, and of places inside. -/
def SearchSite.Adds (site : SearchSite) (inside : List Name → Prop) (s s' : SearchState) : Prop :=
  ∃ added, s'.matches = s.matches ++ added ∧ InOrder site.options.query added ∧
    ∀ m ∈ added, ∃ names, inside names ∧ site.Reports m names

variable {site : SearchSite} {s s' s'' : SearchState} {names : List Name}
  {inside inside' : List Name → Prop}

namespace SearchSite.Adds

theorem of_eq (h : s'.matches = s.matches) : site.Adds inside s s' :=
  ⟨[], by rw [h, List.append_nil], .nil, fun _ hm => absurd hm List.not_mem_nil⟩

theorem mono (h : site.Adds inside s s') (hinside : ∀ names, inside names → inside' names) :
    site.Adds inside' s s' := by
  obtain ⟨added, hadded, horder, hreports⟩ := h
  refine ⟨added, hadded, horder, fun m hm => ?_⟩
  obtain ⟨names, hnames, hreport⟩ := hreports m hm
  exact ⟨names, hinside names hnames, hreport⟩

/-- A counter that no match shows. -/
theorem congr_left (h : site.Adds inside s s') (heq : s''.matches = s.matches) :
    site.Adds inside s'' s' := by
  obtain ⟨added, hadded, hrest⟩ := h
  exact ⟨added, by rw [hadded, heq], hrest⟩

end SearchSite.Adds

theorem splitOn_filePath {segs : List JsString} (hsegs : ∀ s ∈ segs, Plain s) (hne : names ≠ [])
    (hnames : Path.Plain names) :
    (filePath segs names).splitOn slash = segs ++ names.map Name.text := by
  have hnil : segs ++ names.map Name.text ≠ [] := by simp [hne]
  rw [filePath, portable, if_neg hnil]
  refine List.splitOn_intercalate _ (fun t ht => ?_) hnil
  exact ((List.mem_append.mp ht).elim (hsegs t) (hnames.segment t)).noSlash

/-- Matches below two entries come in the order of the entries. -/
theorem before_of_entries (hsegs : ∀ s ∈ site.segs, Plain s) {dirs names' : List Name}
    {name name' : Name} (hlt : compareCodePoints name.text name'.text < 0)
    (hinside : dirs ++ [name] <+: names) (hinside' : dirs ++ [name'] <+: names')
    {m m' : SearchMatch} (hm : site.Reports m names) (hm' : site.Reports m' names') :
    m.Before m' ∧ m.Apart site.options.query m' := by
  obtain ⟨rest, rfl⟩ := hinside
  obtain ⟨rest', rfl⟩ := hinside'
  have hmap (name : Name) (rest : List Name) : site.segs ++ (dirs ++ [name] ++ rest).map Name.text =
      (site.segs ++ dirs.map Name.text) ++ name.text :: rest.map Name.text := by simp
  have hsplit := (splitOn_filePath hsegs hm.below hm.plain).trans (hmap name rest)
  have hsplit' := (splitOn_filePath hsegs hm'.below hm'.plain).trans (hmap name' rest')
  have hbefore : PathBefore m.path m'.path := by
    rw [PathBefore, hm.path, hm'.path, hsplit, hsplit']
    exact List.Lex.append_left (fun a b => compareCodePoints a b < 0) (.rel hlt) _
  refine ⟨.inl hbefore, fun heq => ?_⟩
  rw [hm.path, hm'.path] at heq
  rw [heq, hsplit'] at hsplit
  have hfirst : name'.text = name.text := (List.cons.inj (List.append_cancel_left hsplit)).1
  rw [hfirst, (compareCodePoints_eq_zero_iff _ _).mpr rfl] at hlt
  omega

/-! ## What the walk adds -/

/-- What the limits leave of matches that are appended. -/
theorem foldl_append_matches (options : SearchOptions) : ∀ (all : List SearchMatch)
    (s : SearchState), ∃ added, (all.foldl options.append s).matches = s.matches ++ added ∧
      added.Sublist all
  | [], s => ⟨[], (List.append_nil _).symm, .slnil⟩
  | m :: all, s => by
      obtain ⟨added, hadded, hsublist⟩ := foldl_append_matches options all (options.append s m)
      rw [List.foldl_cons, hadded]
      obtain heq | heq := append_cases options s m
      · exact ⟨added, by rw [heq], hsublist.cons m⟩
      · exact ⟨m :: added, by rw [heq, List.append_assoc, List.singleton_append], hsublist.cons_cons m⟩

/-- The matches of one file. -/
theorem adds_foldl {all : List SearchMatch} (horder : InOrder site.options.query all)
    (hreports : ∀ m ∈ all, site.Reports m names) :
    site.Adds (fun other => other = names) s (all.foldl site.options.append s) := by
  obtain ⟨added, hadded, hsublist⟩ := foldl_append_matches site.options all s
  exact ⟨added, hadded, horder.sublist hsublist,
    fun m hm => ⟨names, rfl, hreports m (hsublist.subset hm)⟩⟩

/-- What an entry adds stands before what the entries behind it add. -/
theorem adds_entries (hsegs : ∀ s ∈ site.segs, Plain s) {dirs : List Name} {name : Name}
    {behind : List JsString} (hbehind : ∀ other ∈ behind, compareCodePoints name.text other < 0)
    (h : site.Adds (fun names => dirs ++ [name] <+: names) s s')
    (h' : site.Adds (fun names => ∃ other : Name, other.text ∈ behind ∧ dirs ++ [other] <+: names)
      s' s'') :
    site.Adds (fun names => ∃ other : Name, other.text ∈ name.text :: behind ∧
      dirs ++ [other] <+: names) s s'' := by
  obtain ⟨added, hadded, horder, hreports⟩ := h
  obtain ⟨added', hadded', horder', hreports'⟩ := h'
  refine ⟨added ++ added', by rw [hadded', hadded, List.append_assoc],
    List.pairwise_append.mpr ⟨horder, horder', fun m hm m' hm' => ?_⟩, fun m hm => ?_⟩
  · obtain ⟨names, hinside, hreport⟩ := hreports m hm
    obtain ⟨names', ⟨other, hother, hinside'⟩, hreport'⟩ := hreports' m' hm'
    exact before_of_entries hsegs (hbehind _ hother) hinside hinside' hreport hreport'
  · obtain hm | hm := List.mem_append.mp hm
    · obtain ⟨names, hinside, hreport⟩ := hreports m hm
      exact ⟨names, ⟨name, List.mem_cons_self, hinside⟩, hreport⟩
    · obtain ⟨names, ⟨other, hother, hinside⟩, hreport⟩ := hreports' m hm
      exact ⟨names, ⟨other, List.mem_cons_of_mem _ hother, hinside⟩, hreport⟩

/-- What the search grows by from a state. -/
def SearchSite.Grows (site : SearchSite) (inside : List Name → Prop) (s : SearchState) :
    SearchState → Volume → Prop :=
  fun s' v' => v' = site.vol ∧ site.Adds inside s s'

theorem SearchSite.Grows.same : site.Grows inside s s site.vol := ⟨rfl, .of_eq rfl⟩

section
variable (h : site.Sound) (hquery : ∀ query, site.options.query = some query → query ≠ [])
include h hquery

/-- An open file. -/
theorem grows_searchOpenFile {query : JsString} (hoption : site.options.query = some query)
    {handle : Handle} (hnode : site.vol.node? (site.start ++ names) = some handle.node)
    (hbelow : names ≠ []) (hplain : Path.Plain names)
    (hglob : site.service.minimatch (filePath site.segs names) site.options.glob = true) :
    Yields site.outside (searchOpenFile site.options query (filePath site.segs names) handle s)
      (site.Grows (fun other => other = names) s) site.vol := by
  unfold searchOpenFile
  refine yields_bind ?_
  refine yields_call h.alone fun stats v' hstat => ?_
  obtain ⟨hstats, rfl⟩ := Prod.ext_iff.mp hstat
  obtain rfl := Except.ok.inj hstats
  obtain ⟨path, node⟩ := handle
  split
  · exact yields_pure .same
  split
  · exact yields_pure ⟨rfl, .of_eq rfl⟩
  rename_i hfile _
  cases node with
  | file bytes mode =>
      refine yields_bind ?_
      have hdata : Yields site.outside
          (if (Node.file bytes mode).stats.size = 0 then pure []
            else Handle.read ⟨path, .file bytes mode⟩ 0 (Node.file bytes mode).stats.size)
          (fun data v' => data = bytes ∧ v' = site.vol) site.vol := by
        split
        · rename_i hempty
          exact yields_pure ⟨(List.eq_nil_of_length_eq_zero hempty).symm, rfl⟩
        · refine yields_call h.alone fun data v' hread => ?_
          obtain ⟨hdata, rfl⟩ := Prod.ext_iff.mp hread
          exact ⟨(Except.ok.inj hdata).symm.trans (List.take_length), rfl⟩
      refine hdata.mono ?_
      rintro data v' ⟨rfl, rfl⟩
      split
      · exact yields_pure ⟨rfl, .of_eq rfl⟩
      unfold decodeUtf8
      cases htext : decodeUtf8Fatal data with
      | none => exact yields_throw _
      | some text =>
          refine yields_pure ⟨rfl, adds_foldl ?_ fun m hm => ?_⟩
          · exact hoption ▸ inOrder_textMatches _ text (hquery query hoption)
          · have hpath := (mem_textMatches hm).1
            exact ⟨hbelow, hplain, ⟨data, mode, hnode, hoption ▸ stands_textMatches htext hm⟩, hpath,
              hpath ▸ hglob⟩
  | directory => exact absurd (fun h => ObjectType.noConfusion h) hfile
  | symlink target => exact absurd (fun h => ObjectType.noConfusion h) hfile
  | other => exact absurd (fun h => ObjectType.noConfusion h) hfile

/-- A file that the glob takes. -/
theorem grows_searchFile {bytes : Bytes} {mode : Mode} (hbelow : names ≠ [])
    (hplain : Path.Plain names) (hlands : site.vol.Lands true (site.start ++ names))
    (hfile : site.vol.node? (site.start ++ names) = some (.file bytes mode))
    (hglob : site.service.minimatch (filePath site.segs names) site.options.glob = true) :
    Yields site.outside
      (searchFile site.options (filePath site.segs names) (Path.text (site.start ++ names)) s)
      (site.Grows (fun other => other = names) s) site.vol := by
  unfold searchFile
  cases hoption : site.options.query with
  | none =>
      refine yields_pure ⟨rfl, ?_⟩
      refine adds_foldl (List.pairwise_singleton _ _) fun m hm => ?_
      obtain rfl := List.mem_singleton.mp hm
      exact ⟨hbelow, hplain, ⟨bytes, mode, hfile, by rw [hoption]; exact ⟨rfl, rfl⟩⟩, rfl, hglob⟩
  | some query =>
      refine yields_bind ((yields_tryRealpath h.alone hlands).mono ?_)
      rintro found v' ⟨rfl, rfl | ⟨rfl, e, he⟩⟩
      · dsimp only
        split
        · exact yields_pure .same
        refine yields_bind ((yields_tryOpen h.alone hlands).mono ?_)
        rintro handle v' ⟨rfl, ⟨node, rfl, hnode⟩ | ⟨rfl, e, he⟩⟩
        · refine yields_tryFinally ?_
          refine (grows_searchOpenFile h hquery hoption hnode hbelow hplain hglob).mono ?_
          rintro s' v' ⟨rfl, hs'⟩
          refine yields_call h.alone fun _ v' hclose => ?_
          exact ⟨(congrArg Prod.snd hclose).symm, hs'⟩
        · exact yields_pure .same
      · exact yields_pure .same

omit h hquery

/-- How the walk goes on below a directory. -/
def SearchSite.GrowsBelow (site : SearchSite) (descend : Option Descent) : Prop :=
  ∀ walk ∈ descend, ∀ (dirs : List Name) (s : SearchState), Path.Plain dirs →
    site.vol.Stands (site.start ++ dirs) →
    Yields site.outside (walk (Path.text (site.start ++ dirs)) (filePath site.segs dirs) s)
      (site.Grows (fun names => dirs <+: names) s) site.vol

include h hquery

/-- An entry of a directory. -/
theorem grows_searchEntry {descend : Option Descent} {dirs : List Name}
    (hdescend : site.GrowsBelow descend) (hdirs : Path.Plain dirs)
    (hstands : site.vol.Stands (site.start ++ dirs)) {name : Name} {node : Node}
    (hnode : site.vol.node? (site.start ++ dirs ++ [name]) = some node) :
    Yields site.outside
      (site.service.searchEntry site.options descend (Path.text (site.start ++ dirs))
        (filePath site.segs dirs) ⟨name.text, node.type⟩ s)
      (site.Grows (fun names => dirs ++ [name] <+: names) s) site.vol := by
  have hname := (h.legal.concat hnode).toPlain
  have hreached := hstands.concat hname (h.legal.concat hnode).short
  rw [List.append_assoc] at hnode hreached
  have hnames : Path.Plain (dirs ++ [name]) := fun n hn =>
    (List.mem_append.mp hn).elim (hdirs n) fun hn => List.mem_singleton.mp hn ▸ hname
  have hchild : join (Path.text (site.start ++ dirs)) name.text =
      Path.text (site.start ++ (dirs ++ [name])) := by
    rw [join_text hstands.plain (.of_name hname), Path.text, ← List.append_assoc]
    simp
  unfold Service.searchEntry
  rw [filePath_concat h hdirs, hchild]
  cases node with
  | symlink target => exact yields_pure .same
  | other => exact yields_pure .same
  | directory =>
      have hstands' : site.vol.Stands (site.start ++ (dirs ++ [name])) := ⟨hreached, hnode⟩
      unfold searchDirectory
      dsimp only [Node.type]
      cases hwalk : descend with
      | none => exact yields_pure .same
      | some walk =>
          refine yields_bind ((yields_tryRealpath h.alone (hstands'.lands true)).mono ?_)
          rintro found v' ⟨rfl, rfl | ⟨rfl, e, he⟩⟩
          · dsimp only
            split
            · exact yields_pure .same
            · exact hdescend walk hwalk _ s hnames hstands'
          · exact yields_pure .same
  | file bytes mode =>
      have hlands : site.vol.Lands true (site.start ++ (dirs ++ [name])) :=
        ⟨hreached, fun target htarget => by rw [hnode] at htarget; cases htarget⟩
      dsimp only [Node.type]
      split
      · exact yields_pure .same
      · rename_i hglob
        refine (grows_searchFile h hquery (by simp) hnames hlands hnode (by simpa using hglob)).mono ?_
        rintro s' v' ⟨rfl, hadds⟩
        exact ⟨rfl, (hadds.congr_left rfl).mono fun names hnames => hnames ▸ List.prefix_rfl⟩

/-- The entries of a directory, sorted, from one of them on. -/
theorem grows_searchEntries {descend : Option Descent} {dirs : List Name}
    (hdescend : site.GrowsBelow descend) (hdirs : Path.Plain dirs)
    (hstands : site.vol.Stands (site.start ++ dirs)) : ∀ (entries : List Dirent) (s : SearchState),
    (∀ entry ∈ entries, entry ∈ site.vol.children (site.start ++ dirs)) →
    (entries.map Dirent.name).Pairwise (fun a b => compareCodePoints a b < 0) →
    Yields site.outside
      (site.service.searchEntries site.options descend (Path.text (site.start ++ dirs))
        (filePath site.segs dirs) entries s)
      (site.Grows (fun names => ∃ name : Name, name.text ∈ entries.map Dirent.name ∧
        dirs ++ [name] <+: names) s) site.vol
  | [], s, _, _ => yields_pure .same
  | entry :: rest, s, hentries, hsorted => by
      unfold Service.searchEntries
      dsimp only
      split
      · exact yields_pure ⟨rfl, .of_eq rfl⟩
      obtain ⟨name, node, hnode, rfl⟩ := Volume.mem_children.mp (hentries entry List.mem_cons_self)
      obtain ⟨hfirst, hrest⟩ := List.pairwise_cons.mp hsorted
      refine yields_bind ((grows_searchEntry h hquery hdescend hdirs hstands hnode).mono ?_)
      rintro s' v' ⟨rfl, hadds⟩
      refine (grows_searchEntries hdescend hdirs hstands rest s'
        (fun e he => hentries e (List.mem_cons_of_mem _ he)) hrest).mono ?_
      rintro s'' v' ⟨rfl, hadds'⟩
      exact ⟨rfl, adds_entries h.segs hfirst (hadds.congr_left rfl) hadds'⟩

/-- One directory. -/
theorem grows_searchIn {descend : Option Descent} {dirs : List Name}
    (hdescend : site.GrowsBelow descend) (hdirs : Path.Plain dirs)
    (hstands : site.vol.Stands (site.start ++ dirs)) :
    Yields site.outside
      (site.service.searchIn site.options descend (Path.text (site.start ++ dirs))
        (filePath site.segs dirs) s)
      (site.Grows (fun names => dirs <+: names) s) site.vol := by
  unfold Service.searchIn
  split
  · exact yields_pure ⟨rfl, .of_eq rfl⟩
  refine yields_bind ?_
  refine yields_call h.alone fun entries v' hreaddir => ?_
  obtain ⟨rfl, dir, hlocate, -, rfl⟩ := perform_readdir.mp hreaddir
  obtain rfl := Except.ok.inj ((Volume.locate_text (hstands.lands true)).symm.trans hlocate)
  refine (grows_searchEntries h hquery hdescend hdirs hstands _ s
    (fun entry hentry => (List.mem_insertionSort _).mp hentry) (pairwise_sortDirents _ _)).mono ?_
  rintro s' v' ⟨rfl, hadds⟩
  exact ⟨rfl, hadds.mono fun names ⟨name, _, hnames⟩ => (List.prefix_append _ _).trans hnames⟩

/-- The walk below a directory. -/
theorem grows_walkSearch : ∀ (levels : Nat) {dirs : List Name} (s : SearchState),
    Path.Plain dirs → site.vol.Stands (site.start ++ dirs) →
    Yields site.outside
      (site.service.walkSearch site.options levels (Path.text (site.start ++ dirs))
        (filePath site.segs dirs) s)
      (site.Grows (fun names => dirs <+: names) s) site.vol
  | 0, dirs, s, hdirs, hstands =>
      grows_searchIn h hquery (fun walk hwalk => (by cases hwalk)) hdirs hstands
  | levels + 1, dirs, s, hdirs, hstands => by
      refine grows_searchIn h hquery (fun walk hwalk dirs' s' hdirs' hstands' => ?_) hdirs hstands
      obtain rfl := Option.some.inj hwalk
      exact grows_walkSearch levels s' hdirs' hstands'

/-- The walk of a search that resolves starts at a directory. -/
theorem grows_walkStart (hlands : site.vol.Lands true site.start) :
    Yields site.outside
      (site.service.walkSearch site.options site.options.maxDepth site.start.text
        (portable site.segs) .initial)
      (site.Grows (fun _ => True) .initial) site.vol := by
  by_cases hnode : site.vol.node? site.start = some .directory
  · have hstands : site.vol.Stands (site.start ++ []) := by
      rw [List.append_nil]
      exact ⟨hlands.toReached, hnode⟩
    have hwalk := grows_walkSearch h hquery site.options.maxDepth .initial
      (fun _ hn => absurd hn List.not_mem_nil) hstands
    rw [List.append_nil, filePath, List.map_nil, List.append_nil] at hwalk
    refine hwalk.mono ?_
    rintro s' v' ⟨rfl, hadds⟩
    exact ⟨rfl, hadds.mono fun _ _ => trivial⟩
  · have hin (descend : Option Descent) : Yields site.outside
        (site.service.searchIn site.options descend site.start.text (portable site.segs) .initial)
        (site.Grows (fun _ => True) .initial) site.vol := by
      unfold Service.searchIn
      rw [if_neg (by decide)]
      refine yields_bind ?_
      refine yields_call h.alone fun entries v' hreaddir => ?_
      obtain ⟨-, dir, hlocate, hdirectory, -⟩ := perform_readdir.mp hreaddir
      obtain rfl := Except.ok.inj ((Volume.locate_text hlands).symm.trans hlocate)
      exact absurd hdirectory hnode
    cases site.options.maxDepth with
    | zero => exact hin none
    | succ levels => exact hin _

end

/-! ## Searches -/

theorem ne_nil_of_validateSearchString {value result : JsString} {name : String} {maximum : Nat}
    (h : validateSearchString value name 1 maximum = .ok result) : result ≠ [] := by
  unfold validateSearchString at h
  split at h
  · cases h
  · rename_i hvalid
    obtain rfl := Except.ok.inj h
    rintro rfl
    exact hvalid (.inl Nat.zero_lt_one)

/-- The query of a search is not empty. -/
theorem SearchSite.Searches.query_ne_nil {request : SearchRequest} (h : site.Searches request) :
    ∀ query, site.options.query = some query → query ≠ [] := by
  intro query hoption
  have hquery := h.query
  rw [hoption] at hquery
  cases hrequest : request.query with
  | none => rw [hrequest] at hquery; cases hquery
  | some value =>
      rw [hrequest] at hquery
      dsimp only at hquery
      cases hvalid : validateSearchString value "query" 1 4096 with
      | error e => rw [hvalid] at hquery; cases hquery
      | ok result =>
          rw [hvalid] at hquery
          obtain rfl := Option.some.inj (Except.ok.inj hquery)
          exact ne_nil_of_validateSearchString hvalid

theorem grows_search {service : Service} {outside : Nat → Turn} (halone : Alone outside)
    {v : Volume} (hlegal : v.Legal) {request : SearchRequest} :
    Yields outside (service.search request)
      (fun result v' => v' = v ∧ ∃ site : SearchSite, site.service = service ∧
        site.outside = outside ∧ site.vol = v ∧ site.Searches request ∧
        ∃ s : SearchState, result = s.result site.options (portable site.segs) ∧
          site.Adds (fun _ => True) .initial s) v := by
  unfold Service.search Service.prepareSearch
  simp only [bind_assoc, pure_bind]
  refine yields_bind (yields_accessWorkspace halone fun root hroot => ?_)
  refine yields_bind (yields_ofExcept fun path hpath => ?_)
  obtain ⟨segs, hsegments, -, rfl⟩ := normalizeRelativePath_ok hpath
  refine yields_bind (yields_ofExcept fun glob hglob => ?_)
  refine yields_bind (yields_ofExcept fun query hquery => ?_)
  refine yields_bind (yields_ofExcept fun maxResults _ => ?_)
  refine yields_bind (yields_ofExcept fun maxBytes _ => ?_)
  refine yields_bind (yields_ofExcept fun maxDepth hdepth => ?_)
  refine yields_bind (yields_ofExcept fun maxFileBytes _ => ?_)
  have hplain : ∀ s ∈ segs, Plain s := fun s hs => (hsegments s hs).toPlain
  unfold Service.searchPath
  refine yields_bind (yields_bind
    (yields_resolveExistingPath halone hroot.lands.plain hplain fun start hleads => ?_))
  let site : SearchSite := ⟨service, outside, v,
    ⟨root.text, glob, query, maxDepth, maxFileBytes, maxResults, maxBytes⟩, root, segs, start⟩
  have hsound : site.Sound := ⟨halone, hlegal, hroot.lands.plain, hplain, hleads.inside, rfl⟩
  have hsearches : site.Searches request :=
    ⟨hroot, rfl, hpath, hsegments, hleads, hglob, hquery, hdepth⟩
  refine (grows_walkStart hsound hsearches.query_ne_nil hleads.lands).mono ?_
  rintro s v' ⟨rfl, hadds⟩
  exact yields_pure ⟨rfl, site, rfl, rfl, rfl, hsearches, s, rfl, hadds⟩

/-- Each match of a search is one of a file below its path, the matches come in
order and apart, and nothing depends on how directories are enumerated. -/
theorem search_ordered (service : Service) {outside : Nat → Turn} (halone : Alone outside)
    {v : Volume} (hlegal : v.Legal) (request : SearchRequest) {w : World} (hw : w.vol = v) :
    (∀ order : World → JsString → List Dirent → List Dirent,
      (∀ w path entries, (order w path entries).Perm entries) →
        Prog.run (enumerated order (answer outside)) (service.search request).run w =
          Prog.run (answer outside) (service.search request).run w) ∧
    ∀ result w', Prog.run (answer outside) (service.search request).run w = (.ok result, w') →
      ∃ site : SearchSite, site.service = service ∧ site.outside = outside ∧ site.vol = v ∧
        site.Searches request ∧
        (∀ m ∈ result.matches, ∃ names, site.Reports m names) ∧
        result.matches.Pairwise SearchMatch.Before ∧
        result.matches.Pairwise (SearchMatch.Apart site.options.query) := by
  refine ⟨fun order horder => search_enumerated horder service request w,
    fun result w' hrun => ?_⟩
  subst hw
  obtain ⟨-, site, hservice, houtside, hvol, hsearches, s, rfl, added, hadded, horder, hreports⟩ :=
    (grows_search halone hlegal).of_run hrun
  have hmatches : (s.result site.options (portable site.segs)).matches = added := hadded
  rw [hmatches]
  exact ⟨site, hservice, houtside, hvol, hsearches,
    fun m hm => let ⟨names, _, hreport⟩ := hreports m hm; ⟨names, hreport⟩,
    horder.imp fun h => h.1, horder.imp fun h => h.2⟩

/-- A workspace with matches in two files, two of them in one line. -/
def scattered : Volume :=
  ⟨⟨[(["ws".toList], .directory),
      (["ws".toList, "b".toList], .file (encodeUtf8 (js "zaaaa\naa")) 0o644),
      (["ws".toList, "a".toList], .directory),
      (["ws".toList, "a".toList, "c".toList], .file (encodeUtf8 (js "xaa")) 0o644)], by
    change [["ws".toList], ["ws".toList, "b".toList], ["ws".toList, "a".toList],
      ["ws".toList, "a".toList, "c".toList]].Nodup
    decide⟩, 0o022⟩

theorem scattered_legal : scattered.Legal :=
  legal_of_names ["ws".toList, "a".toList, "b".toList, "c".toList] (by decide) (by decide)

def scatteredMatches : List SearchMatch :=
  [⟨js "a/c", some 1, some 2, some (js "xaa")⟩, ⟨js "b", some 1, some 2, some (js "zaaaa")⟩,
    ⟨js "b", some 1, some 4, some (js "zaaaa")⟩, ⟨js "b", some 2, some 1, some (js "aa")⟩]

theorem scattered_run : (Prog.run (answer still)
    (globWorkspace.search (nestedRequest (some (js "aa")) 20)).run ⟨scattered, []⟩).1 =
      .ok ⟨js ".", js "**/*", some (js "aa"), scatteredMatches, false, 2, 0, 0⟩ := by
  decide +kernel

theorem search_ordered_scattered :
    scatteredMatches.Pairwise SearchMatch.Before ∧
    (∃ site : SearchSite, site.vol = scattered ∧
      site.Searches (nestedRequest (some (js "aa")) 20) ∧
      (∀ m ∈ scatteredMatches, ∃ names, site.Reports m names) ∧
      scatteredMatches.Pairwise (SearchMatch.Apart site.options.query)) ∧
    Prog.run (enumerated (fun _ _ entries => entries.reverse) (answer still))
        (globWorkspace.search (nestedRequest (some (js "aa")) 20)).run ⟨scattered, []⟩ =
      Prog.run (answer still)
        (globWorkspace.search (nestedRequest (some (js "aa")) 20)).run ⟨scattered, []⟩ := by
  obtain ⟨henumerated, hordered⟩ := search_ordered globWorkspace alone_still scattered_legal
    (nestedRequest (some (js "aa")) 20) (w := ⟨scattered, []⟩) rfl
  obtain ⟨site, -, -, hvol, hsearches, hreports, hbefore, hapart⟩ :=
    hordered _ _ (Prod.ext scattered_run rfl)
  exact ⟨hbefore, ⟨site, hvol, hsearches, hreports, hapart⟩,
    henumerated _ fun _ _ entries => entries.reverse_perm⟩

end Benchhand.Filesystem
