/-
Benchhand.Filesystem.SearchFilesTheorems — which files a search finds.

On a volume that nobody changes, a search that cut nothing off and skipped no
file has an entry for a file that it should find, unless the file lies below
the depth limit or the query has a line feed in it (`search_complete`). The
walk is followed from one state to the next (`Advances`), with what it has
found of the places it went through.
-/
import Benchhand.Filesystem.ReadTheorems
import Benchhand.Filesystem.SearchTheorems

namespace Benchhand.Filesystem

open Text Posix Process

/-! ## Files to find -/

/-- The portable path of an object below the path of a search. -/
def filePath (segs : List JsString) (names : List Name) : JsString :=
  portable (segs ++ names.map Name.text)

/-- A search of a path, on a volume. -/
structure SearchSite where
  service : Service
  outside : Nat → Turn
  vol : Volume
  options : SearchOptions
  root : Path
  segs : List JsString
  start : Path

/-- A file that the search should find: below the path through directories,
readable, taken by the glob, and with the query in its text. -/
structure SearchSite.Sought (site : SearchSite) (names : List Name) : Prop where
  below : names ≠ []
  directories : ∀ before, before <+: names → before ≠ names →
    site.vol.node? (site.start ++ before) = some .directory
  content : ∃ bytes mode, site.vol.node? (site.start ++ names) = some (.file bytes mode) ∧
    ∀ query, site.options.query = some query →
      ∃ text, decodeUtf8Fatal bytes = some text ∧ query <:+: text
  resolved : ∀ before, before ≠ [] → before <+: names → ∀ e,
    ¬ Fails site.outside (.realpath (Path.text (site.start ++ before))) site.vol e
  opened : ∀ e, ¬ Fails site.outside (.openRead (Path.text (site.start ++ names))) site.vol e
  glob : site.service.minimatch (filePath site.segs names) site.options.glob = true

/-- A file that the search can find: not below its depth limit, and with a
query that can stand in one line. -/
structure SearchSite.Findable (site : SearchSite) (names : List Name) : Prop where
  depth : names.length ≤ site.options.maxDepth + 1
  query : ∀ query, site.options.query = some query → ch '\n' ∉ query

/-! ## What a search has found -/

/-- Nothing was cut off and no file was skipped. -/
structure SearchState.Clean (s : SearchState) : Prop where
  truncated : s.truncated = false
  skippedBinary : s.skippedBinary = 0
  skippedOversized : s.skippedOversized = 0

/-- There is an entry for the file, if it is one to find. -/
def SearchSite.Found (site : SearchSite) (s : SearchState) (names : List Name) : Prop :=
  site.Sought names → site.Findable names →
    ∃ m ∈ s.matches, m.path = filePath site.segs names

/-- A place that the walk comes to. -/
structure SearchSite.Visits (site : SearchSite) (names : List Name) : Prop where
  ne_nil : names ≠ []
  plain : Path.Plain names
  depth : names.length ≤ site.options.maxDepth + 1
  lands : site.vol.Lands true (site.start ++ names)

/-- A match of a file that can be found. -/
structure SearchSite.Genuine (site : SearchSite) (m : SearchMatch) (names : List Name) :
    Prop where
  visits : site.Visits names
  file : ∃ bytes mode, site.vol.node? (site.start ++ names) = some (.file bytes mode)
  query : ∀ query, site.options.query = some query → ch '\n' ∉ query
  path : m.path = filePath site.segs names

/-- How a search goes on from a state. -/
structure SearchSite.Advances (site : SearchSite) (s s' : SearchState) : Prop where
  kept : s.matches ⊆ s'.matches
  clean : s'.Clean → s.Clean
  added : ∀ m ∈ s'.matches, m ∈ s.matches ∨ ∃ names, site.Genuine m names

variable {site : SearchSite} {s s' s'' : SearchState} {names : List Name}

theorem SearchSite.Found.mono (h : site.Found s names) (hkept : s.matches ⊆ s'.matches) :
    site.Found s' names := fun hsought hfindable =>
  let ⟨m, hm, hpath⟩ := h hsought hfindable
  ⟨m, hkept hm, hpath⟩

namespace SearchSite.Advances

theorem refl : site.Advances s s := ⟨List.Subset.refl _, id, fun _ hm => .inl hm⟩

theorem trans (h : site.Advances s s') (h' : site.Advances s' s'') : site.Advances s s'' where
  kept := List.Subset.trans h.kept h'.kept
  clean hclean := h.clean (h'.clean hclean)
  added m hm := (h'.added m hm).elim (h.added m) .inr

/-- A counter that no result shows. -/
theorem of_eq (hmatches : s'.matches = s.matches) (htruncated : s'.truncated = s.truncated)
    (hbinary : s'.skippedBinary = s.skippedBinary)
    (hoversized : s'.skippedOversized = s.skippedOversized) : site.Advances s s' where
  kept _ hm := hmatches ▸ hm
  clean h := ⟨htruncated ▸ h.truncated, hbinary ▸ h.skippedBinary, hoversized ▸ h.skippedOversized⟩
  added _ hm := .inl (hmatches ▸ hm)

/-- The search says that something is missing. -/
theorem of_not_clean (hmatches : s'.matches = s.matches) (h : ¬ s'.Clean) :
    site.Advances s s' where
  kept _ hm := hmatches ▸ hm
  clean hclean := absurd hclean h
  added _ hm := .inl (hmatches ▸ hm)

end SearchSite.Advances

/-! ## Matches that are added -/

/-- A match is added or dropped, and a dropped one shows. -/
theorem append_cases (options : SearchOptions) (s : SearchState) (m : SearchMatch) :
    options.append s m = { s with truncated := true } ∨
      options.append s m = { s with
        «matches» := s.matches ++ [m], outputBytes := s.outputBytes + m.estimatedBytes } := by
  unfold SearchOptions.append appendSearchMatch
  split
  · exact .inl rfl
  · exact .inr rfl

theorem SearchSite.Advances.append {m : SearchMatch} (h : ∃ names, site.Genuine m names) :
    site.Advances s (site.options.append s m) := by
  obtain heq | heq := append_cases site.options s m
  · rw [heq]
    exact .of_not_clean rfl fun h => Bool.noConfusion h.truncated
  · rw [heq]
    refine ⟨List.subset_append_left _ _, fun h => ⟨h.truncated, h.skippedBinary,
      h.skippedOversized⟩, fun m' hm' => ?_⟩
    obtain hm' | hm' := List.mem_append.mp hm'
    · exact .inl hm'
    · exact .inr (List.mem_singleton.mp hm' ▸ h)

theorem mem_append_clean {options : SearchOptions} {m : SearchMatch}
    (h : (options.append s m).Clean) : m ∈ (options.append s m).matches := by
  obtain heq | heq := append_cases options s m
  · rw [heq] at h
    exact Bool.noConfusion h.truncated
  · rw [heq]
    exact List.mem_append_right _ (List.mem_singleton_self m)

theorem SearchSite.Advances.foldl : ∀ {all : List SearchMatch} {s : SearchState},
    (∀ m ∈ all, ∃ names, site.Genuine m names) →
    site.Advances s (all.foldl site.options.append s) ∧
      ((all.foldl site.options.append s).Clean →
        ∀ m ∈ all, m ∈ (all.foldl site.options.append s).matches)
  | [], s, _ => ⟨.refl, fun _ m hm => absurd hm List.not_mem_nil⟩
  | m :: all, s, h => by
      have hm := SearchSite.Advances.append (s := s) (h m List.mem_cons_self)
      obtain ⟨hrest, hall⟩ := SearchSite.Advances.foldl (s := site.options.append s m)
        fun m' hm' => h m' (List.mem_cons_of_mem m hm')
      refine ⟨hm.trans hrest, fun hclean m' hm' => ?_⟩
      obtain rfl | hm' := List.mem_cons.mp hm'
      · exact hrest.kept (mem_append_clean (hrest.clean hclean))
      · exact hall hclean m' hm'

theorem mem_textMatches {relativePath query text : JsString} {m : SearchMatch}
    (h : m ∈ textMatches relativePath query text) : m.path = relativePath ∧ ch '\n' ∉ query := by
  obtain ⟨⟨line, lineIndex⟩, hline, hm⟩ := List.mem_flatMap.mp h
  obtain ⟨found, hfound, rfl⟩ := List.mem_map.mp hm
  refine ⟨rfl, fun hbreak => ?_⟩
  have hin := occurrencesFrom_ne_nil_iff.mp (List.ne_nil_of_mem hfound)
  have hmem : line ∈ text.splitOn (ch '\n') := (List.mem_zipIdx hline).2.2 ▸ List.getElem_mem _
  exact not_mem_of_mem_splitOn line hmem (hin.subset hbreak)

theorem textMatches_ne_nil {relativePath query text : JsString} (hquery : ch '\n' ∉ query)
    (h : query <:+: text) : textMatches relativePath query text ≠ [] := by
  obtain ⟨line, hline, hinfix⟩ := (exists_line_iff hquery).mpr h
  obtain ⟨lineIndex, hindex⟩ := List.mem_iff_getElem?.mp hline
  have hne : occurrencesFrom line query (max 1 query.length) (line.length + 1) 0 ≠ [] :=
    occurrencesFrom_ne_nil_iff.mpr hinfix
  obtain ⟨found, hfound⟩ := List.exists_mem_of_ne_nil _ hne
  have hmem : (line, lineIndex) ∈ (text.splitOn (ch '\n')).zipIdx :=
    List.mem_zipIdx_iff_getElem?.mpr hindex
  exact List.ne_nil_of_mem (List.mem_flatMap.mpr ⟨_, hmem, List.mem_map_of_mem hfound⟩)

/-! ## The walk -/

/-- What the search comes to from a state, with what it has found then. -/
def SearchSite.Comes (site : SearchSite) (s : SearchState) (found : SearchState → Prop) :
    SearchState → Volume → Prop :=
  fun s' v' => v' = site.vol ∧ site.Advances s s' ∧ (s'.Clean → found s')

theorem SearchSite.Comes.same {found : SearchState → Prop} (h : found s) :
    site.Comes s found s site.vol := ⟨rfl, .refl, fun _ => h⟩

/-- What is no file is not looked for. -/
theorem SearchSite.Found.of_not_file {node : Node}
    (hnode : site.vol.node? (site.start ++ names) = some node)
    (hfile : ∀ bytes mode, node ≠ .file bytes mode) : site.Found s names := by
  intro hsought _
  obtain ⟨bytes, mode, hbytes, -⟩ := hsought.content
  exact absurd (Option.some.inj (hnode.symm.trans hbytes)) (hfile bytes mode)

/-- The text of a file, all of its matches added. -/
theorem yields_matches {query : JsString} (hquery : site.options.query = some query) {bytes : Bytes}
    {mode : Mode} (hnode : site.vol.node? (site.start ++ names) = some (.file bytes mode))
    (hvisits : site.Visits names) :
    Yields site.outside
      (decodeUtf8 bytes >>= fun text =>
        pure ((textMatches (filePath site.segs names) query text).foldl site.options.append s))
      (site.Comes s fun s' => site.Found s' names) site.vol := by
  unfold decodeUtf8
  cases htext : decodeUtf8Fatal bytes with
  | none => exact yields_throw _
  | some text =>
      have hgenuine : ∀ m ∈ textMatches (filePath site.segs names) query text,
          ∃ names, site.Genuine m names := by
        intro m hm
        obtain ⟨hpath, hbreak⟩ := mem_textMatches hm
        refine ⟨names, hvisits, ⟨bytes, mode, hnode⟩, fun query' hquery' => ?_, hpath⟩
        exact Option.some.inj (hquery.symm.trans hquery') ▸ hbreak
      obtain ⟨hadvances, hall⟩ := SearchSite.Advances.foldl (s := s) hgenuine
      refine yields_pure ⟨rfl, hadvances, fun hclean hsought hfindable => ?_⟩
      obtain ⟨bytes', mode', hbytes, hcontent⟩ := hsought.content
      obtain ⟨rfl, rfl⟩ := Node.file.inj (Option.some.inj (hnode.symm.trans hbytes))
      obtain ⟨text', htext', hinfix⟩ := hcontent query hquery
      obtain rfl := Option.some.inj (htext.symm.trans htext')
      have hne : textMatches (filePath site.segs names) query text ≠ [] :=
        textMatches_ne_nil (hfindable.query query hquery) hinfix
      obtain ⟨m, hm⟩ := List.exists_mem_of_ne_nil _ hne
      exact ⟨m, hall hclean m hm, (mem_textMatches hm).1⟩

section
variable (halone : Alone site.outside)
include halone

/-- An open file of the search. -/
theorem yields_searchOpenFile {query : JsString} (hquery : site.options.query = some query)
    {handle : Handle} (hnode : site.vol.node? (site.start ++ names) = some handle.node)
    (hvisits : site.Visits names) :
    Yields site.outside (searchOpenFile site.options query (filePath site.segs names) handle s)
      (site.Comes s fun s' => site.Found s' names) site.vol := by
  unfold searchOpenFile
  refine yields_bind ?_
  refine yields_call halone fun stats v' hstat => ?_
  obtain ⟨hstats, rfl⟩ := Prod.ext_iff.mp hstat
  obtain rfl := Except.ok.inj hstats
  obtain ⟨path, node⟩ := handle
  cases node with
  | file bytes mode =>
      refine (congrArg (fun p => Yields site.outside p _ _) (if_neg (not_not_intro rfl))).mpr ?_
      split
      · exact yields_pure ⟨rfl, .of_not_clean rfl fun h => Nat.noConfusion h.skippedOversized,
          fun h => Nat.noConfusion h.skippedOversized⟩
      refine yields_bind ?_
      have hdata : Yields site.outside
          (if (Node.file bytes mode).stats.size = 0 then pure []
            else Handle.read ⟨path, .file bytes mode⟩ 0 (Node.file bytes mode).stats.size)
          (fun data v' => data = bytes ∧ v' = site.vol) site.vol := by
        split
        · rename_i hempty
          exact yields_pure ⟨(List.eq_nil_of_length_eq_zero hempty).symm, rfl⟩
        · refine yields_call halone fun data v' hread => ?_
          obtain ⟨hdata, rfl⟩ := Prod.ext_iff.mp hread
          exact ⟨(Except.ok.inj hdata).symm.trans (List.take_length), rfl⟩
      refine hdata.mono ?_
      rintro data v' ⟨rfl, rfl⟩
      split
      · exact yields_pure ⟨rfl, .of_not_clean rfl fun h => Nat.noConfusion h.skippedBinary,
          fun h => Nat.noConfusion h.skippedBinary⟩
      · exact yields_matches hquery hnode hvisits
  | directory => exact yields_pure (.same (.of_not_file hnode fun _ _ h => Node.noConfusion h))
  | symlink target => exact yields_pure (.same (.of_not_file hnode fun _ _ h => Node.noConfusion h))
  | other => exact yields_pure (.same (.of_not_file hnode fun _ _ h => Node.noConfusion h))

/-- Resolving a place: its own path, or a failure. -/
theorem yields_tryRealpath {place : Path} (hlands : site.vol.Lands true place) :
    Yields site.outside (tryCatch (some <$> realpath place.text) fun _ => pure none)
      (fun found v' => v' = site.vol ∧
        (found = some place.text ∨
          found = none ∧ ∃ e, Fails site.outside (.realpath place.text) site.vol e))
      site.vol := by
  refine yields_catch halone (fun _ _ => Call.noConfusion) (fun canonical v' hrealpath => ?_)
    fun e he => ?_
  · obtain ⟨rfl, place', node, hlocate, -, rfl⟩ := perform_realpath.mp hrealpath
    obtain rfl := Except.ok.inj ((Volume.locate_text hlands).symm.trans hlocate)
    exact ⟨rfl, .inl rfl⟩
  · exact yields_pure ⟨rfl, .inr ⟨rfl, e, he⟩⟩

theorem yields_tryOpen {place : Path} (hlands : site.vol.Lands true place) :
    Yields site.outside (tryCatch (some <$> openRead place.text) fun _ => pure none)
      (fun found v' => v' = site.vol ∧
        ((∃ node, found = some ⟨place, node⟩ ∧ site.vol.node? place = some node) ∨
          found = none ∧ ∃ e, Fails site.outside (.openRead place.text) site.vol e))
      site.vol := by
  refine yields_catch halone (fun _ _ => Call.noConfusion) (fun handle v' hopen => ?_)
    fun e he => ?_
  · obtain ⟨rfl, hlocate, hnode⟩ := perform_openRead.mp hopen
    obtain ⟨path, node⟩ := handle
    obtain rfl := Except.ok.inj ((Volume.locate_text hlands).symm.trans hlocate)
    exact ⟨rfl, .inl ⟨node, rfl, hnode⟩⟩
  · exact yields_pure ⟨rfl, .inr ⟨rfl, e, he⟩⟩

end

/-- A search alone on a volume with legal names, from a place in the
workspace. -/
structure SearchSite.Sound (site : SearchSite) : Prop where
  alone : Alone site.outside
  legal : site.vol.Legal
  root : site.root.Plain
  segs : ∀ s ∈ site.segs, Plain s
  inside : site.root <+: site.start
  workspaceRoot : site.options.workspaceRoot = site.root.text

section
variable (h : site.Sound)
include h

theorem filePath_concat {dirs : List Name} (hdirs : Path.Plain dirs) (name : Name) :
    joinPortable (filePath site.segs dirs) name.text = filePath site.segs (dirs ++ [name]) := by
  rw [filePath, joinPortable_portable, filePath, List.map_append, ← List.append_assoc]
  · rfl
  · exact fun s hs => (List.mem_append.mp hs).elim (h.segs s) (hdirs.segment s)

/-- A file that the glob takes. -/
theorem yields_searchFile {bytes : Bytes} {mode : Mode} (hvisits : site.Visits names)
    (hfile : site.vol.node? (site.start ++ names) = some (.file bytes mode)) :
    Yields site.outside
      (searchFile site.options (filePath site.segs names) (Path.text (site.start ++ names)) s)
      (site.Comes s fun s' => site.Found s' names) site.vol := by
  unfold searchFile
  have hin : isSameOrDescendant site.options.workspaceRoot (Path.text (site.start ++ names)) =
      true := by
    rw [h.workspaceRoot, isSameOrDescendant_text h.root hvisits.lands.plain]
    exact h.inside.trans (List.prefix_append _ _)
  cases hquery : site.options.query with
  | none =>
      have hgenuine : site.Genuine ⟨filePath site.segs names, none, none, none⟩ names :=
        ⟨hvisits, ⟨bytes, mode, hfile⟩,
          fun query hquery' => absurd (hquery.symm.trans hquery') (by simp), rfl⟩
      exact yields_pure ⟨rfl, .append ⟨names, hgenuine⟩, fun hclean _ _ =>
        ⟨_, mem_append_clean hclean, rfl⟩⟩
  | some query =>
      refine yields_bind ((yields_tryRealpath h.alone hvisits.lands).mono ?_)
      rintro found v' ⟨rfl, rfl | ⟨rfl, e, he⟩⟩
      · dsimp only
        rw [hin, if_neg (by simp)]
        refine yields_bind ((yields_tryOpen h.alone hvisits.lands).mono ?_)
        rintro handle v' ⟨rfl, ⟨node, rfl, hnode⟩ | ⟨rfl, e, he⟩⟩
        · refine yields_tryFinally ?_
          refine (yields_searchOpenFile h.alone hquery hnode hvisits).mono ?_
          rintro s' v' ⟨rfl, hs'⟩
          refine yields_call h.alone fun _ v' hclose => ?_
          exact ⟨(congrArg Prod.snd hclose).symm, hs'⟩
        · exact yields_pure (.same fun hsought _ => absurd he (hsought.opened e))
      · exact yields_pure (.same fun hsought _ =>
          absurd he (hsought.resolved names hsought.below List.prefix_rfl e))

end

/-- Nothing is looked for below what is no directory. -/
theorem SearchSite.Found.of_not_directory {rest : List Name} (hrest : rest ≠ []) {node : Node}
    (hnode : site.vol.node? (site.start ++ names) = some node) (hdirectory : node ≠ .directory) :
    site.Found s (names ++ rest) := by
  intro hsought _
  have hbefore : names ≠ names ++ rest := fun heq => hrest (by simpa using heq)
  have hin := hsought.directories names (List.prefix_append _ _) hbefore
  exact absurd (Option.some.inj (hnode.symm.trans hin)) hdirectory

/-- The first name on the way to a file is there. -/
theorem SearchSite.Sought.exists_node {dirs rest : List Name} {name : Name}
    (h : site.Sought (dirs ++ [name] ++ rest)) :
    ∃ node, site.vol.node? (site.start ++ dirs ++ [name]) = some node := by
  rw [List.append_assoc site.start]
  by_cases hrest : rest = []
  · obtain ⟨bytes, mode, hnode, -⟩ := h.content
    rw [hrest, List.append_nil] at hnode
    exact ⟨_, hnode⟩
  · have hbefore : dirs ++ [name] ≠ dirs ++ [name] ++ rest := fun heq => hrest (by simpa using heq)
    exact ⟨_, h.directories (dirs ++ [name]) (List.prefix_append _ _) hbefore⟩

/-- What the search finds of an entry, with so many levels below it. -/
def SearchSite.FoundIn (site : SearchSite) (names : List Name) (levels : Nat) (s : SearchState) :
    Prop :=
  ∀ rest, rest.length ≤ levels → site.Found s (names ++ rest)

/-- What the walk of a directory finds. -/
def SearchSite.FoundBelow (site : SearchSite) (dirs : List Name) (levels : Nat) (s : SearchState) :
    Prop :=
  ∀ name, site.FoundIn (dirs ++ [name]) levels s

theorem SearchSite.FoundIn.mono {levels : Nat} (h : site.FoundIn names levels s)
    (hkept : s.matches ⊆ s'.matches) : site.FoundIn names levels s' := fun rest hrest =>
  (h rest hrest).mono hkept

/-- An entry that is neither a file nor a directory. -/
theorem SearchSite.FoundIn.of_neither {levels : Nat} {node : Node}
    (hnode : site.vol.node? (site.start ++ names) = some node)
    (hfile : ∀ bytes mode, node ≠ .file bytes mode) (hdirectory : node ≠ .directory) :
    site.FoundIn names levels s := by
  intro rest _
  by_cases hrest : rest = []
  · rw [hrest, List.append_nil]
    exact .of_not_file hnode hfile
  · exact .of_not_directory hrest hnode hdirectory

/-- How the walk goes on in directories with as many names, with so many levels
left. -/
def SearchSite.Descends (site : SearchSite) (depth : Nat) : Nat → Option Descent → Prop
  | 0, descend => descend = none
  | levels + 1, descend => ∃ walk, descend = some walk ∧
      ∀ (dirs : List Name) (s : SearchState), dirs.length = depth + 1 → Path.Plain dirs →
        site.vol.Stands (site.start ++ dirs) →
        Yields site.outside (walk (Path.text (site.start ++ dirs)) (filePath site.segs dirs) s)
          (site.Comes s (site.FoundBelow dirs levels)) site.vol

section
variable (h : site.Sound)
include h

/-- A directory of the search. -/
theorem yields_searchDirectory {depth levels : Nat} {descend : Option Descent}
    (hdescend : site.Descends depth levels descend) (hnames : Path.Plain names)
    (hlength : names.length = depth + 1) (hstands : site.vol.Stands (site.start ++ names)) :
    Yields site.outside
      (searchDirectory site.options descend (filePath site.segs names)
        (Path.text (site.start ++ names)) s)
      (site.Comes s (site.FoundIn names levels)) site.vol := by
  have hself : ∀ s' : SearchState, site.Found s' (names ++ []) := fun s' => by
    rw [List.append_nil]
    exact .of_not_file hstands.node fun _ _ h => Node.noConfusion h
  cases levels with
  | zero =>
      rw [show descend = none from hdescend]
      refine yields_pure (.same fun rest hrest => ?_)
      rw [List.eq_nil_of_length_eq_zero (Nat.le_zero.mp hrest)]
      exact hself s
  | succ levels =>
      obtain ⟨walk, rfl, hwalk⟩ := hdescend
      have hin : isSameOrDescendant site.options.workspaceRoot (Path.text (site.start ++ names)) =
          true := by
        rw [h.workspaceRoot, isSameOrDescendant_text h.root hstands.plain]
        exact h.inside.trans (List.prefix_append _ _)
      refine yields_bind ((yields_tryRealpath h.alone (hstands.lands true)).mono ?_)
      rintro found v' ⟨rfl, rfl | ⟨rfl, e, he⟩⟩
      · dsimp only
        rw [hin, if_neg (by simp)]
        refine (hwalk names s hlength hnames hstands).mono ?_
        rintro s' v' ⟨rfl, hadvances, hbelow⟩
        refine ⟨rfl, hadvances, fun hclean rest hrest => ?_⟩
        cases rest with
        | nil => exact hself s'
        | cons name rest =>
            rw [List.append_cons]
            exact hbelow hclean name rest (Nat.le_of_succ_le_succ hrest)
      · refine yields_pure (.same fun rest _ => ?_)
        intro hsought _
        have hne : names ≠ [] := List.ne_nil_of_length_pos (by omega)
        exact absurd he (hsought.resolved names hne (List.prefix_append _ _) e)

/-- An entry of a directory. -/
theorem yields_searchEntry {levels : Nat} {descend : Option Descent} {dirs : List Name}
    (hdescend : site.Descends dirs.length levels descend) (hdirs : Path.Plain dirs)
    (hlevels : dirs.length + levels = site.options.maxDepth)
    (hstands : site.vol.Stands (site.start ++ dirs)) {name : Name} {node : Node}
    (hnode : site.vol.node? (site.start ++ dirs ++ [name]) = some node) :
    Yields site.outside
      (site.service.searchEntry site.options descend (Path.text (site.start ++ dirs))
        (filePath site.segs dirs) ⟨name.text, node.type⟩ s)
      (site.Comes s (site.FoundIn (dirs ++ [name]) levels)) site.vol := by
  have hname := (h.legal.concat hnode).toPlain
  have hreached := hstands.concat hname (h.legal.concat hnode).short
  rw [List.append_assoc] at hnode hreached
  have hnames : Path.Plain (dirs ++ [name]) := fun n hn =>
    (List.mem_append.mp hn).elim (hdirs n) fun hn => List.mem_singleton.mp hn ▸ hname
  have hchild : join (Path.text (site.start ++ dirs)) name.text =
      Path.text (site.start ++ (dirs ++ [name])) := by
    rw [join_text hstands.plain (.of_name hname), Path.text, ← List.append_assoc]
    simp
  unfold Service.searchEntry
  rw [filePath_concat h hdirs, hchild]
  cases node with
  | symlink target =>
      exact yields_pure (.same (.of_neither hnode (fun _ _ h => Node.noConfusion h)
        Node.noConfusion))
  | other =>
      exact yields_pure (.same (.of_neither hnode (fun _ _ h => Node.noConfusion h)
        Node.noConfusion))
  | directory =>
      exact yields_searchDirectory h hdescend hnames (by simp) ⟨hreached, hnode⟩
  | file bytes mode =>
      have hlands : site.vol.Lands true (site.start ++ (dirs ++ [name])) :=
        ⟨hreached, fun target htarget => by rw [hnode] at htarget; cases htarget⟩
      have hbelow : ∀ (s' : SearchState) (rest : List Name), rest ≠ [] →
          site.Found s' (dirs ++ [name] ++ rest) := fun s' rest hrest =>
        .of_not_directory hrest hnode Node.noConfusion
      have hin : ∀ s' : SearchState, site.Found s' (dirs ++ [name]) →
          site.FoundIn (dirs ++ [name]) levels s' := by
        intro s' hfound rest _
        by_cases hrest : rest = []
        · rw [hrest, List.append_nil]
          exact hfound
        · exact hbelow s' rest hrest
      dsimp only [Node.type]
      split
      · rename_i hglob
        refine yields_pure (.same (hin s fun hsought _ => ?_))
        rw [hsought.glob] at hglob
        cases hglob
      · have hvisits : site.Visits (dirs ++ [name]) :=
          ⟨by simp, hnames, by simp; omega, hlands⟩
        refine (yields_searchFile h hvisits hnode).mono ?_
        rintro s' v' ⟨rfl, hadvances, hfound⟩
        have hcount : site.Advances s { s with scannedFiles := s.scannedFiles + 1 } :=
          .of_eq rfl rfl rfl rfl
        exact ⟨rfl, hcount.trans hadvances, fun hclean => hin s' (hfound hclean)⟩

/-- The entries of a directory, from one of them on. -/
theorem yields_searchEntries {levels : Nat} {descend : Option Descent} {dirs : List Name}
    (hdescend : site.Descends dirs.length levels descend) (hdirs : Path.Plain dirs)
    (hlevels : dirs.length + levels = site.options.maxDepth)
    (hstands : site.vol.Stands (site.start ++ dirs)) : ∀ (entries : List Dirent) (s : SearchState),
    (∀ entry ∈ entries, entry ∈ site.vol.children (site.start ++ dirs)) →
    Yields site.outside
      (site.service.searchEntries site.options descend (Path.text (site.start ++ dirs))
        (filePath site.segs dirs) entries s)
      (site.Comes s fun s' => ∀ entry ∈ entries, ∀ name : Name, entry.name = name.text →
        site.FoundIn (dirs ++ [name]) levels s') site.vol
  | [], s, _ => yields_pure (.same fun entry hentry => absurd hentry List.not_mem_nil)
  | entry :: rest, s, hentries => by
      have hscan : site.Advances s { s with scannedEntries := s.scannedEntries + 1 } :=
        .of_eq rfl rfl rfl rfl
      unfold Service.searchEntries
      dsimp only
      split
      · refine yields_pure ⟨rfl, .of_not_clean rfl fun h => Bool.noConfusion h.truncated,
          fun h => Bool.noConfusion h.truncated⟩
      obtain ⟨name, node, hnode, rfl⟩ := Volume.mem_children.mp (hentries entry List.mem_cons_self)
      refine yields_bind ((yields_searchEntry h hdescend hdirs hlevels hstands hnode).mono ?_)
      rintro s' v' ⟨rfl, hadvances, hfirst⟩
      refine (yields_searchEntries hdescend hdirs hlevels hstands rest s'
        fun e he => hentries e (List.mem_cons_of_mem _ he)).mono ?_
      rintro s'' v' ⟨rfl, hadvances', hothers⟩
      refine ⟨rfl, (hscan.trans hadvances).trans hadvances', fun hclean e he n hn => ?_⟩
      obtain rfl | he := List.mem_cons.mp he
      · obtain rfl := text_injective hn
        exact (hfirst (hadvances'.clean hclean)).mono hadvances'.kept
      · exact hothers hclean e he n hn

/-- One directory. -/
theorem yields_searchIn {levels : Nat} {descend : Option Descent} {dirs : List Name}
    (hdescend : site.Descends dirs.length levels descend) (hdirs : Path.Plain dirs)
    (hlevels : dirs.length + levels = site.options.maxDepth)
    (hstands : site.vol.Stands (site.start ++ dirs)) :
    Yields site.outside
      (site.service.searchIn site.options descend (Path.text (site.start ++ dirs))
        (filePath site.segs dirs) s)
      (site.Comes s (site.FoundBelow dirs levels)) site.vol := by
  unfold Service.searchIn
  split
  · exact yields_pure ⟨rfl, .of_not_clean rfl fun h => Bool.noConfusion h.truncated,
      fun h => Bool.noConfusion h.truncated⟩
  refine yields_bind ?_
  refine yields_call h.alone fun entries v' hreaddir => ?_
  obtain ⟨rfl, dir, hlocate, -, rfl⟩ := perform_readdir.mp hreaddir
  obtain rfl := Except.ok.inj ((Volume.locate_text (hstands.lands true)).symm.trans hlocate)
  have hmem : ∀ entry, entry ∈ sortDirents (site.vol.children (site.start ++ dirs)) ↔
      entry ∈ site.vol.children (site.start ++ dirs) := fun entry => List.mem_insertionSort _
  refine (yields_searchEntries h hdescend hdirs hlevels hstands _ s
    fun entry hentry => (hmem entry).mp hentry).mono ?_
  rintro s' v' ⟨rfl, hadvances, hfound⟩
  refine ⟨rfl, hadvances, fun hclean name rest hrest hsought => ?_⟩
  -- the first name of a file to find is an entry of the directory
  obtain ⟨node, hnode⟩ := hsought.exists_node
  exact hfound hclean _ ((hmem _).mpr (Volume.mem_children.mpr ⟨name, node, hnode, rfl⟩)) name rfl
    rest hrest hsought

/-- The walk below a directory. -/
theorem yields_walkSearch : ∀ (levels : Nat) {dirs : List Name} (s : SearchState),
    Path.Plain dirs → dirs.length + levels = site.options.maxDepth →
    site.vol.Stands (site.start ++ dirs) →
    Yields site.outside
      (site.service.walkSearch site.options levels (Path.text (site.start ++ dirs))
        (filePath site.segs dirs) s)
      (site.Comes s (site.FoundBelow dirs levels)) site.vol
  | 0, dirs, s, hdirs, hlevels, hstands =>
      yields_searchIn h rfl hdirs hlevels hstands
  | levels + 1, dirs, s, hdirs, hlevels, hstands => by
      refine yields_searchIn h ⟨_, rfl, fun dirs' s' hlength hdirs' hstands' => ?_⟩ hdirs hlevels
        hstands
      exact yields_walkSearch levels s' hdirs' (by omega) hstands'

/-- A search that resolves has started at a directory. -/
theorem yields_walkStart (hlands : site.vol.Lands true site.start) :
    Yields site.outside
      (site.service.walkSearch site.options site.options.maxDepth site.start.text
        (portable site.segs) .initial)
      (site.Comes .initial (site.FoundBelow [] site.options.maxDepth)) site.vol := by
  by_cases hnode : site.vol.node? site.start = some .directory
  · have hstands : site.vol.Stands (site.start ++ []) := by
      rw [List.append_nil]
      exact ⟨hlands.toReached, hnode⟩
    have hnil : Path.Plain [] := fun _ hn => absurd hn List.not_mem_nil
    have hwalk := yields_walkSearch h site.options.maxDepth .initial hnil (Nat.zero_add _) hstands
    rw [List.append_nil, filePath, List.map_nil, List.append_nil] at hwalk
    exact hwalk
  · have hin : ∀ (descend : Option Descent) {Q : SearchState → Volume → Prop}, Yields site.outside
        (site.service.searchIn site.options descend site.start.text (portable site.segs) .initial)
        Q site.vol := by
      intro descend Q
      unfold Service.searchIn
      rw [if_neg (by decide)]
      refine yields_bind ?_
      refine yields_call h.alone fun entries v' hreaddir => ?_
      obtain ⟨-, dir, hlocate, hdirectory, -⟩ := perform_readdir.mp hreaddir
      obtain rfl := Except.ok.inj ((Volume.locate_text hlands).symm.trans hlocate)
      exact absurd hdirectory hnode
    cases site.options.maxDepth with
    | zero => exact hin none
    | succ levels => exact hin _

end

/-! ## Untruncated searches -/

/-- The search of a request on a volume. -/
structure SearchSite.Searches (site : SearchSite) (request : SearchRequest) : Prop where
  available : site.service.Root site.vol request.workspaceId site.root
  workspaceRoot : site.options.workspaceRoot = site.root.text
  path : normalizeRelativePath (request.path.getD dot) true = .ok (portable site.segs)
  segments : ∀ s ∈ site.segs, Segment s
  leads : Leads site.vol site.root site.segs site.start
  glob : validateSearchString (request.glob.getD (js "**/*")) "glob" 1 1024 = .ok site.options.glob
  query : (match request.query with
    | none => .ok none
    | some query => (validateSearchString query "query" 1 4096).map some :
    Except FilesystemError (Option JsString)) = .ok site.options.query
  maxDepth : boundedOption request.maxDepth defaultSearchDepth "maxDepth" 0 maxSearchDepth =
    .ok site.options.maxDepth

theorem yields_search {service : Service} {outside : Nat → Turn} (halone : Alone outside)
    {v : Volume} (hlegal : v.Legal) {request : SearchRequest} :
    Yields outside (service.search request)
      (fun result v' => v' = v ∧ ∃ site : SearchSite, site.service = service ∧ site.outside = outside ∧
        site.vol = v ∧ site.Searches request ∧ site.Sound ∧
        ∃ s : SearchState, result = s.result site.options (portable site.segs) ∧
          site.Advances .initial s ∧ (s.Clean → site.FoundBelow [] site.options.maxDepth s)) v := by
  unfold Service.search Service.prepareSearch
  simp only [bind_assoc, pure_bind]
  refine yields_bind (yields_accessWorkspace halone fun root hroot => ?_)
  refine yields_bind (yields_ofExcept fun path hpath => ?_)
  obtain ⟨segs, hsegments, -, rfl⟩ := normalizeRelativePath_ok hpath
  refine yields_bind (yields_ofExcept fun glob hglob => ?_)
  refine yields_bind (yields_ofExcept fun query hquery => ?_)
  refine yields_bind (yields_ofExcept fun maxResults _ => ?_)
  refine yields_bind (yields_ofExcept fun maxBytes _ => ?_)
  refine yields_bind (yields_ofExcept fun maxDepth hdepth => ?_)
  refine yields_bind (yields_ofExcept fun maxFileBytes _ => ?_)
  have hplain : ∀ s ∈ segs, Plain s := fun s hs => (hsegments s hs).toPlain
  unfold Service.searchPath
  refine yields_bind (yields_bind
    (yields_resolveExistingPath halone hroot.lands.plain hplain fun start hleads => ?_))
  have hsound : SearchSite.Sound ⟨service, outside, v,
      ⟨root.text, glob, query, maxDepth, maxFileBytes, maxResults, maxBytes⟩, root, segs, start⟩ :=
    ⟨halone, hlegal, hroot.lands.plain, hplain, hleads.inside, rfl⟩
  refine (yields_walkStart hsound hleads.lands).mono ?_
  rintro s v' ⟨rfl, hadvances, hfound⟩
  refine yields_pure ⟨rfl, _, rfl, rfl, rfl, ⟨hroot, rfl, hpath, hsegments, hleads, hglob, hquery, hdepth⟩,
    hsound, s, rfl, hadvances, hfound⟩

theorem SearchSite.Sought.plain {site : SearchSite} (hlegal : site.vol.Legal) {names : List Name}
    (h : site.Sought names) : Path.Plain names := by
  obtain ⟨bytes, mode, hnode, -⟩ := h.content
  exact fun name hname => (hlegal.below h.below hnode name hname).toPlain

/-- An untruncated search that skipped no file has an entry for every file that
it should find, exactly when it can find each of them. -/
theorem search_complete {service : Service} {outside : Nat → Turn} (halone : Alone outside)
    {v : Volume} (hlegal : v.Legal) {request : SearchRequest} {w w' : World} (hw : w.vol = v)
    {result : SearchResult}
    (hrun : Prog.run (answer outside) (service.search request).run w = (.ok result, w'))
    (htruncated : result.truncated = false) (hbinary : result.skippedBinary = 0)
    (hoversized : result.skippedOversized = 0) :
    ∃ site : SearchSite, site.service = service ∧ site.outside = outside ∧ site.vol = v ∧
      site.Searches request ∧
      ((∀ names, site.Sought names → ∃ m ∈ result.matches, m.path = filePath site.segs names) ↔
        ∀ names, site.Sought names → site.Findable names) := by
  subst hw
  obtain ⟨-, site, hservice, houtside, hvol, hsearches, hsound, s, rfl, hadvances, hfound⟩ :=
    (yields_search halone hlegal).of_run hrun
  refine ⟨site, hservice, houtside, hvol, hsearches, fun hall names hsought => ?_,
    fun hfindable names hsought => ?_⟩
  · obtain ⟨m, hm, hpath⟩ := hall names hsought
    obtain hm | ⟨names', hgenuine⟩ := hadvances.added m hm
    · exact absurd hm List.not_mem_nil
    have hplain := hsought.plain hsound.legal
    have hsegs := portable_injective
      (fun t ht => (List.mem_append.mp ht).elim (hsound.segs t) (hplain.segment t))
      (fun t ht => (List.mem_append.mp ht).elim (hsound.segs t) (hgenuine.visits.plain.segment t))
      (hpath.symm.trans hgenuine.path)
    have hlength := congrArg List.length (List.append_cancel_left hsegs)
    rw [List.length_map, List.length_map] at hlength
    exact ⟨hlength ▸ hgenuine.visits.depth, hgenuine.query⟩
  · obtain ⟨name, rest, rfl⟩ := List.exists_cons_of_ne_nil hsought.below
    exact hfound ⟨htruncated, hbinary, hoversized⟩ name rest
      (Nat.le_of_succ_le_succ (hfindable _ hsought).depth) hsought (hfindable _ hsought)

/-! ### A file in a directory -/

/-- A workspace with the file `d/b` of two lines. -/
def nested : Volume :=
  ⟨⟨[(["ws".toList], .directory), (["ws".toList, "d".toList], .directory),
      (["ws".toList, "d".toList, "b".toList], .file (encodeUtf8 (js "x\ny")) 0o644)], by
    change [["ws".toList], ["ws".toList, "d".toList],
      ["ws".toList, "d".toList, "b".toList]].Nodup
    decide⟩, 0o022⟩

/-- A volume of plain names. -/
theorem legal_of_names {v : Volume} (names : List Name)
    (hplain : ∀ name ∈ names, name ≠ [] ∧ name ≠ ['.'] ∧ name ≠ parentName ∧ '/' ∉ name ∧
      Name.size name ≤ nameMax ∧ '\x00' ∉ name)
    (hnames : ∀ e ∈ v.nodes.entries, ∀ name ∈ e.1, name ∈ names) : v.Legal := by
  intro e he name hmem
  obtain ⟨hnil, hdot, hdots, hslash, hsize, hnul⟩ := hplain name (hnames e he name hmem)
  exact ⟨⟨hnil, hdot, hdots, hslash⟩, hsize, hnul⟩

theorem nested_legal : nested.Legal :=
  legal_of_names ["ws".toList, "d".toList, "b".toList] (by decide) (by decide)

/-- The search of the workspace. -/
def nestedRequest (query : Option JsString) (maxDepth : Nat) : SearchRequest where
  workspaceId := js "ws"
  path := none
  glob := none
  query := query
  maxResults := none
  maxBytes := none
  maxDepth := some (.ofNat maxDepth)
  maxFileBytes := none

def nestedSite (query : Option JsString) (maxDepth : Nat) : SearchSite where
  service := globWorkspace
  outside := still
  vol := nested
  options := ⟨js "/ws", js "**/*", query, maxDepth, defaultSearchFileBytes, defaultSearchResults,
    defaultSearchOutputBytes⟩
  root := ["ws".toList]
  segs := []
  start := ["ws".toList]

theorem nested_run : (Prog.run (answer still)
    (globWorkspace.search (nestedRequest (some (js "y")) 20)).run ⟨nested, []⟩).1 =
      .ok ⟨js ".", js "**/*", some (js "y"), [⟨js "d/b", some 2, some 1, some (js "y")⟩], false, 1,
        0, 0⟩ := by
  decide +kernel

theorem search_complete_nested : ∃ site : SearchSite, site.service = globWorkspace ∧
    site.outside = still ∧ site.vol = nested ∧
    site.Searches (nestedRequest (some (js "y")) 20) ∧
    ((∀ names, site.Sought names →
        ∃ m ∈ [SearchMatch.mk (js "d/b") (some 2) (some 1) (some (js "y"))],
          m.path = filePath site.segs names) ↔
      ∀ names, site.Sought names → site.Findable names) :=
  search_complete alone_still nested_legal rfl (Prod.ext nested_run rfl) rfl rfl rfl

theorem not_fails_still {c : Call} {v : Volume} {e : Errno} (h : (perform c v).1.isOk = true) :
    ¬ Fails still c v e := by
  rintro (⟨n, fault, hfault, -⟩ | hperform)
  · cases hfault
  · rw [hperform] at h
    cases h

theorem nested_searches {query : Option JsString} (maxDepth : Nat)
    (hquery : ∀ q, query = some q → validateSearchString q "query" 1 4096 = .ok q)
    (hdepth : boundedInteger (.ofNat maxDepth) "maxDepth" 0 maxSearchDepth = .ok maxDepth) :
    (nestedSite query maxDepth).Searches (nestedRequest query maxDepth) where
  available := ⟨rfl, Volume.lands_of_locate (rfl : nested.locate true (js "/ws") = .ok ["ws".toList]),
    rfl⟩
  workspaceRoot := rfl
  path := rfl
  segments _ hs := absurd hs List.not_mem_nil
  leads := ⟨rfl, rfl, List.prefix_rfl⟩
  glob := rfl
  query := by
    cases query with
    | none => rfl
    | some q => exact congrArg (Except.map some) (hquery q rfl)
  maxDepth := hdepth

theorem nested_sought {query : Option JsString} (maxDepth : Nat)
    (hquery : ∀ q, query = some q → q <:+: js "x\ny") :
    (nestedSite query maxDepth).Sought ["d".toList, "b".toList] where
  below := by decide
  directories before hbefore hne := by
    have hall : ∀ before ∈ ["d".toList, "b".toList].inits, before ≠ ["d".toList, "b".toList] →
        nested.node? (["ws".toList] ++ before) = some .directory := by decide
    exact hall before ((List.mem_inits _ _).mpr hbefore) hne
  content := ⟨_, _, rfl, fun q hq => ⟨js "x\ny", by decide, hquery q hq⟩⟩
  resolved before hnil hbefore e := by
    have hall : ∀ before ∈ ["d".toList, "b".toList].inits, before ≠ [] →
        (perform (.realpath (Path.text (["ws".toList] ++ before))) nested).1.isOk = true := by
      decide
    exact not_fails_still (hall before ((List.mem_inits _ _).mpr hbefore) hnil)
  opened e := not_fails_still rfl
  glob := rfl

theorem nested_run_unfound : ∀ input ∈ [(none, 0), (some (js "x\ny"), 20)],
    (Prog.run (answer still) (globWorkspace.search (nestedRequest input.1 input.2)).run
      ⟨nested, []⟩).1 = .ok ⟨js ".", js "**/*", input.1, [], false,
        if input.1.isSome then 1 else 0, 0, 0⟩ := by
  decide +kernel

/-- The search misses the file, and nothing shows it. -/
def MissesNested (query : Option JsString) (maxDepth : Nat) : Prop :=
  ∃ result, (Prog.run (answer still) (globWorkspace.search (nestedRequest query maxDepth)).run
      ⟨nested, []⟩).1 = .ok result ∧
    result.truncated = false ∧ result.skippedBinary = 0 ∧ result.skippedOversized = 0 ∧
    (nestedSite query maxDepth).Searches (nestedRequest query maxDepth) ∧
    (nestedSite query maxDepth).Sought ["d".toList, "b".toList] ∧ result.matches = []

/-- The file is not found below the depth limit, nor with a query of two
lines. -/
theorem search_complete_unfound : MissesNested none 0 ∧ MissesNested (some (js "x\ny")) 20 := by
  have hquery : ∀ input ∈ [(none, 0), (some (js "x\ny"), 20)], ∀ q, input.1 = some q →
      validateSearchString q "query" 1 4096 = .ok q ∧ q <:+: js "x\ny" := by
    decide
  have hdepth : ∀ input ∈ [(none, 0), (some (js "x\ny"), 20)],
      input.2 < 2 ^ 53 ∧ input.2 ≤ maxSearchDepth := by
    decide
  have hmisses : ∀ input ∈ [(none, 0), (some (js "x\ny"), 20)], MissesNested input.1 input.2 := by
    intro input hinput
    refine ⟨_, nested_run_unfound input hinput, rfl, rfl, rfl, ?_, ?_, rfl⟩
    · exact nested_searches input.2 (fun q hq => (hquery input hinput q hq).1)
        (boundedInteger_ok (integer?_ofNat (hdepth input hinput).1)
          (Nat.le_sub_one_of_lt (hdepth input hinput).1) (Nat.zero_le _) (hdepth input hinput).2)
    · exact nested_sought input.2 fun q hq => (hquery input hinput q hq).2
  exact ⟨hmisses (none, 0) (by simp), hmisses (some (js "x\ny"), 20) (by simp)⟩

end Benchhand.Filesystem
