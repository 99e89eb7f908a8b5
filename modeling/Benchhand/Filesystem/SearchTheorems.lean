/-
Benchhand.Filesystem.SearchTheorems — what the limits of a search cut off.

A search with other limits makes the same calls: it is one tally of all
matches, seen through its limits (`seenAs_searchPath`). What a limit leaves of
the tally is what a budget keeps of a list, and that is not always a prefix
(`search_cuts`).
-/
import Benchhand.Filesystem.ListTheorems
import Benchhand.Filesystem.Search
import Benchhand.Process.Views
import Benchhand.Store.Budget

namespace Benchhand.Filesystem

open Text Posix Process Store

/-! ## Tallies -/

/-- What a search has found so far, whatever its limits. -/
structure Tally where
  found : List SearchMatch
  capped : Bool
  scannedEntries : Nat
  scannedFiles : Nat
  skippedBinary : Nat
  skippedOversized : Nat
  reached : capped = true → maxSearchEntries ≤ scannedEntries

namespace Tally

def initial : Tally := ⟨[], false, 0, 0, 0, 0, Bool.noConfusion⟩

/-- The state of a search with these limits. -/
def under (limit : Budget) (t : Tally) : SearchState :=
  { «matches» := limit.keep SearchMatch.estimatedBytes t.found
    truncated := t.capped || decide (limit.keep SearchMatch.estimatedBytes t.found ≠ t.found)
    outputBytes := total SearchMatch.estimatedBytes (limit.keep SearchMatch.estimatedBytes t.found)
    scannedEntries := t.scannedEntries
    scannedFiles := t.scannedFiles
    skippedBinary := t.skippedBinary
    skippedOversized := t.skippedOversized }

def add (t : Tally) (m : SearchMatch) : Tally := { t with found := t.found ++ [m] }

end Tally

/-- The options with other limits. -/
def SearchOptions.within (options : SearchOptions) (limit : Budget) : SearchOptions :=
  { options with maxResults := limit.count, maxBytes := limit.bytes }

section
variable (options : SearchOptions) (limit : Budget)

@[simp] theorem within_workspaceRoot :
    (options.within limit).workspaceRoot = options.workspaceRoot := rfl

@[simp] theorem within_glob : (options.within limit).glob = options.glob := rfl

@[simp] theorem within_query : (options.within limit).query = options.query := rfl

@[simp] theorem within_maxDepth : (options.within limit).maxDepth = options.maxDepth := rfl

@[simp] theorem within_maxFileBytes :
    (options.within limit).maxFileBytes = options.maxFileBytes := rfl

end

variable {service : Service} {options : SearchOptions} {limit : Budget}

theorem under_initial : Tally.initial.under limit = .initial := rfl

/-- A match is added to the tally, whether or not the limits have room. -/
theorem append_under (t : Tally) (m : SearchMatch) :
    (options.within limit).append (t.under limit) m = (t.add m).under limit := by
  have hself : limit.keep SearchMatch.estimatedBytes (t.found ++ [m]) = t.found ++ [m] ↔
      limit.keep SearchMatch.estimatedBytes t.found = t.found ∧
        limit.Fits SearchMatch.estimatedBytes (limit.keep SearchMatch.estimatedBytes t.found) m :=
    Budget.keep_concat_eq_iff
  have hroom : (limit.count ≤ (limit.keep SearchMatch.estimatedBytes t.found).length ∨
      limit.bytes < total SearchMatch.estimatedBytes
        (limit.keep SearchMatch.estimatedBytes t.found) + m.estimatedBytes) ↔
      ¬ limit.Fits SearchMatch.estimatedBytes (limit.keep SearchMatch.estimatedBytes t.found) m := by
    rw [Budget.Fits, not_and_or, not_lt, not_le]
  by_cases hfits : limit.Fits SearchMatch.estimatedBytes
      (limit.keep SearchMatch.estimatedBytes t.found) m
  · have hkeep := Budget.keep_concat.trans (Budget.pick_pos hfits)
    refine (if_neg (mt hroom.mp (not_not_intro hfits))).trans ?_
    simp only [Tally.under, Tally.add, hkeep, total_concat, ne_eq, List.append_left_inj]
  · have hkeep := Budget.keep_concat.trans (Budget.pick_neg hfits)
    have hcut : limit.keep SearchMatch.estimatedBytes (t.found ++ [m]) ≠ t.found ++ [m] :=
      fun h => hfits (hself.mp h).2
    refine (if_pos (hroom.mpr hfits)).trans ?_
    rw [hkeep] at hcut
    simp only [Tally.under, Tally.add, hkeep, decide_eq_true hcut, Bool.or_true]

theorem foldl_append_under (t : Tally) (all : List SearchMatch) :
    all.foldl (options.within limit).append (t.under limit) =
      (all.foldl Tally.add t).under limit := by
  induction all generalizing t with
  | nil => rfl
  | cons m all ih => rw [List.foldl_cons, append_under, ih, List.foldl_cons]

/-! ## The walk -/

/-- A function that a search calls, as a function of its limits. -/
abbrev Tallies (p : Budget → Async SearchState) : Prop :=
  SeenAs (fun limit (t : Tally) => t.under limit) p

theorem seenAs_under (t : Tally) : Tallies fun limit => pure (t.under limit) :=
  seenAs_pure t fun _ => rfl

theorem seenAs_searchOpenFile (query relativePath : JsString) (handle : Handle) (t : Tally) :
    Tallies fun limit =>
      searchOpenFile (options.within limit) query relativePath handle (t.under limit) := by
  unfold searchOpenFile
  refine seenAs_bind_same fun stats => ?_
  refine seenAs_ite (stats.type ≠ .file) (fun _ => Iff.rfl) ?_ ?_
  · exact fun _ => seenAs_under t
  intro _
  refine seenAs_ite (options.maxFileBytes < stats.size ∨ maxSafeInteger < stats.size)
    (fun _ => Iff.rfl) ?_ ?_
  · exact fun _ => seenAs_under { t with skippedOversized := t.skippedOversized + 1 }
  refine fun _ => seenAs_bind_same fun data => ?_
  refine seenAs_ite (classifyBuffer data = .binary) (fun _ => Iff.rfl) ?_ ?_
  · exact fun _ => seenAs_under { t with skippedBinary := t.skippedBinary + 1 }
  refine fun _ => seenAs_bind_same fun text => ?_
  exact seenAs_pure _ fun limit => foldl_append_under t _

theorem seenAs_searchFile (relativePath childPath : JsString) (t : Tally) :
    Tallies fun limit =>
      searchFile (options.within limit) relativePath childPath (t.under limit) := by
  unfold searchFile
  cases hquery : options.query with
  | none =>
      simp only [within_query, hquery]
      exact seenAs_pure _ fun limit => append_under t _
  | some query =>
      simp only [within_query, within_workspaceRoot, hquery]
      refine seenAs_bind_same fun canonicalFile => ?_
      cases canonicalFile with
      | none => exact seenAs_under t
      | some canonicalFile =>
          refine seenAs_ite (!isSameOrDescendant options.workspaceRoot canonicalFile)
            (fun _ => Iff.rfl) ?_ ?_
          · exact fun _ => seenAs_under t
          refine fun _ => seenAs_bind_same fun handle => ?_
          cases handle with
          | none => exact seenAs_under t
          | some handle =>
              exact seenAs_tryFinally (seenAs_searchOpenFile query relativePath handle t)

/-- A walk that goes on below, as a function of the limits. -/
def TalliesBelow (descend : Budget → Option Descent) : Prop :=
  (∀ limit, descend limit = none) ∨
    ∃ walk : Budget → Descent, (∀ limit, descend limit = some (walk limit)) ∧
      ∀ (directory directoryPath : JsString) (t : Tally), Tallies fun limit =>
        walk limit directory directoryPath (t.under limit)

theorem seenAs_searchDirectory {descend : Budget → Option Descent} (hdescend : TalliesBelow descend)
    (relativePath childPath : JsString) (t : Tally) :
    Tallies fun limit =>
      searchDirectory (options.within limit) (descend limit) relativePath childPath
        (t.under limit) := by
  unfold searchDirectory
  obtain hnone | ⟨walk, hsome, hwalk⟩ := hdescend
  · simp only [hnone]
    exact seenAs_under t
  · simp only [hsome, within_workspaceRoot]
    refine seenAs_bind_same fun canonicalDirectory => ?_
    cases canonicalDirectory with
    | none => exact seenAs_under t
    | some canonicalDirectory =>
        refine seenAs_ite (!isSameOrDescendant options.workspaceRoot canonicalDirectory)
          (fun _ => Iff.rfl) ?_ ?_
        · exact fun _ => seenAs_under t
        · exact fun _ => hwalk canonicalDirectory relativePath t

theorem seenAs_searchEntry {descend : Budget → Option Descent} (hdescend : TalliesBelow descend)
    (directory directoryPath : JsString) (entry : Dirent) (t : Tally) :
    Tallies fun limit =>
      service.searchEntry (options.within limit) (descend limit) directory directoryPath entry
        (t.under limit) := by
  unfold Service.searchEntry
  cases entry.type with
  | symlink => exact seenAs_under t
  | directory => exact seenAs_searchDirectory hdescend _ _ t
  | other => exact seenAs_under t
  | file =>
      refine seenAs_ite (!service.minimatch (joinPortable directoryPath entry.name) options.glob)
        (fun _ => Iff.rfl) ?_ ?_
      · exact fun _ => seenAs_under t
      · exact fun _ => seenAs_searchFile _ _ { t with scannedFiles := t.scannedFiles + 1 }

/-- The search has gone through as many entries as it may. -/
def Tally.cap (t : Tally) (h : maxSearchEntries ≤ t.scannedEntries) : Tally :=
  { t with capped := true, reached := fun _ => h }

theorem under_cap (t : Tally) (h : maxSearchEntries ≤ t.scannedEntries) :
    (t.cap h).under limit = { t.under limit with truncated := true } := by
  simp only [Tally.under, Tally.cap, Bool.true_or]

/-- One entry more. -/
def Tally.scan (t : Tally) : Tally :=
  { t with
    scannedEntries := t.scannedEntries + 1
    reached := fun h => Nat.le_succ_of_le (t.reached h) }

theorem seenAs_searchEntries {descend : Budget → Option Descent} (hdescend : TalliesBelow descend)
    (directory directoryPath : JsString) : ∀ (entries : List Dirent) (t : Tally),
    Tallies fun limit =>
      service.searchEntries (options.within limit) (descend limit) directory directoryPath entries
        (t.under limit)
  | [], t => seenAs_under t
  | entry :: rest, t => by
      unfold Service.searchEntries
      refine seenAs_ite (maxSearchEntries < t.scan.scannedEntries) (fun _ => Iff.rfl) ?_ ?_
      · intro hcap
        exact seenAs_pure (t.scan.cap hcap.le) fun limit => (under_cap t.scan hcap.le).symm
      · refine fun _ => seenAs_bind
          (seenAs_searchEntry hdescend directory directoryPath entry t.scan) fun t' => ?_
        exact seenAs_searchEntries hdescend directory directoryPath rest t'

theorem seenAs_searchIn {descend : Budget → Option Descent} (hdescend : TalliesBelow descend)
    (directory directoryPath : JsString) (t : Tally) :
    Tallies fun limit =>
      service.searchIn (options.within limit) (descend limit) directory directoryPath
        (t.under limit) := by
  unfold Service.searchIn
  refine seenAs_ite (maxSearchEntries ≤ t.scannedEntries) (fun _ => Iff.rfl) ?_ ?_
  · intro hcap
    exact seenAs_pure (t.cap hcap) fun limit => (under_cap t hcap).symm
  · refine fun _ => seenAs_bind_same fun entries => ?_
    exact seenAs_searchEntries hdescend directory directoryPath (sortDirents entries) t

theorem seenAs_walkSearch : ∀ (levels : Nat) (directory directoryPath : JsString) (t : Tally),
    Tallies fun limit =>
      service.walkSearch (options.within limit) levels directory directoryPath (t.under limit)
  | 0, directory, directoryPath, t =>
      seenAs_searchIn (Or.inl fun _ => rfl) directory directoryPath t
  | levels + 1, directory, directoryPath, t =>
      seenAs_searchIn (Or.inr ⟨_, fun _ => rfl, seenAs_walkSearch levels⟩) directory
        directoryPath t

/-- All searches of a path that differ in their limits are one tally. -/
theorem seenAs_searchPath (path : JsString) :
    Tallies fun limit => service.searchPath (options.within limit) path := by
  unfold Service.searchPath
  simp only [within_workspaceRoot, within_maxDepth]
  refine seenAs_bind_same fun absolutePath => ?_
  have hwalk : Tallies fun limit =>
      service.walkSearch (options.within limit) options.maxDepth absolutePath path
        (Tally.initial.under limit) :=
    seenAs_walkSearch options.maxDepth absolutePath path .initial
  simpa only [under_initial] using hwalk

/-! ## Searches with other limits -/

/-- The limits of a request. -/
def SearchRequest.budget (request : SearchRequest) : Except FilesystemError Budget := do
  let count ← boundedOption request.maxResults defaultSearchResults "maxResults" 1 maxSearchResults
  let bytes ←
    boundedOption request.maxBytes defaultSearchOutputBytes "maxBytes" 1 maxSearchOutputBytes
  return ⟨count, bytes⟩

/-- The search of a request with any limits in place of its own, and how many
entries it went through. -/
def Service.searchWithin (service : Service) (request : SearchRequest) (limit : Budget) :
    Async (SearchResult × Nat) := do
  let (path, options) ← service.prepareSearch request
  let state ← service.searchPath (options.within limit) path
  return (state.result options path, state.scannedEntries)

theorem budget_eq_ok {request : SearchRequest} (h : request.budget = .ok limit) :
    boundedOption request.maxResults defaultSearchResults "maxResults" 1 maxSearchResults =
        .ok limit.count ∧
      boundedOption request.maxBytes defaultSearchOutputBytes "maxBytes" 1 maxSearchOutputBytes =
        .ok limit.bytes := by
  unfold SearchRequest.budget at h
  revert h
  cases boundedOption request.maxResults defaultSearchResults "maxResults" 1 maxSearchResults with
  | error e => exact fun h => nomatch h
  | ok count =>
      cases boundedOption request.maxBytes defaultSearchOutputBytes "maxBytes" 1
        maxSearchOutputBytes with
      | error e => exact fun h => nomatch h
      | ok bytes =>
          intro h
          obtain rfl := Except.ok.inj h
          exact ⟨rfl, rfl⟩

/-- The search of a request is the one with its own limits. -/
theorem search_eq {request : SearchRequest} (h : request.budget = .ok limit) :
    service.search request = Prod.fst <$> service.searchWithin request limit := by
  obtain ⟨hcount, hbytes⟩ := budget_eq_ok h
  have hok : ∀ n : Nat, (ofExcept (.ok n) : Async Nat) = pure n := fun _ => rfl
  simp only [Service.search, Service.searchWithin, Service.prepareSearch, hcount, hbytes, hok,
    bind_assoc, pure_bind, map_bind, map_pure, SearchOptions.within]

/-- Requests that differ in their limits search alike. -/
theorem searchWithin_eq {request : SearchRequest} {maxResults maxBytes : Option Js.Number}
    {limit' : Budget} (h : request.budget = .ok limit)
    (h' : { request with maxResults, maxBytes }.budget = .ok limit') (any : Budget) :
    service.searchWithin { request with maxResults, maxBytes } any =
      service.searchWithin request any := by
  obtain ⟨hcount, hbytes⟩ := budget_eq_ok h
  obtain ⟨hcount', hbytes'⟩ := budget_eq_ok h'
  have hok : ∀ n : Nat, (ofExcept (.ok n) : Async Nat) = pure n := fun _ => rfl
  simp only [Service.searchWithin, Service.prepareSearch, hcount, hbytes, hcount', hbytes', hok,
    bind_assoc, pure_bind, SearchOptions.within, SearchState.result]

/-- What a search with these limits returns of a tally. -/
def seen (limit : Budget) (found : JsString × SearchOptions × Tally) : SearchResult × Nat :=
  ((found.2.2.under limit).result found.2.1 found.1, found.2.2.scannedEntries)

/-- One tally for all limits. -/
theorem seenAs_searchWithin (service : Service) (request : SearchRequest) :
    SeenAs seen fun limit => service.searchWithin request limit := by
  unfold Service.searchWithin
  refine seenAs_bind_same fun prepared => ?_
  refine seenAs_bind (seenAs_searchPath prepared.1) fun t => ?_
  exact seenAs_pure (prepared.1, prepared.2, t) fun _ => rfl

/-! ## What is cut off -/

variable {W : Type} {h : Handler Call Answer W} {request : SearchRequest} {w w' : W}

/-- All matches, as the search of a request would return them with limits that
have room for them. -/
def AllMatches (h : Handler Call Answer W) (service : Service) (request : SearchRequest) (w : W)
    (all : List SearchMatch) : Prop :=
  ∀ limit : Budget, limit.Within SearchMatch.estimatedBytes all →
    ∃ result w', Prog.run h (service.searchWithin request limit).run w = (.ok result, w') ∧
      result.1.matches = all ∧ result.1.truncated = false

/-- The search goes through fewer entries than it may, whatever its limits. -/
def FewEntries (h : Handler Call Answer W) (service : Service) (request : SearchRequest)
    (w : W) : Prop :=
  ∀ limit result w', Prog.run h (service.searchWithin request limit).run w = (.ok result, w') →
    result.2 < maxSearchEntries

/-- The matches are a prefix of all, within the limits, and it shows when some
are missing. -/
structure CutsPrefix (limit : Budget) (result : SearchResult) (all : List SearchMatch) : Prop where
  isPrefix : result.matches <+: all
  within : limit.Within SearchMatch.estimatedBytes result.matches
  truncated : result.truncated = true ↔ result.matches ≠ all

/-- With larger limits the matches go on. -/
def Extends (h : Handler Call Answer W) (service : Service) (request : SearchRequest) (w : W)
    (limit : Budget) (result : SearchResult) : Prop :=
  ∀ maxResults maxBytes limit' result' w',
    { request with maxResults, maxBytes }.budget = .ok limit' → limit ≤ limit' →
    Prog.run h (service.search { request with maxResults, maxBytes }).run w = (.ok result', w') →
    result.matches <+: result'.matches

theorem exists_found {result : SearchResult × Nat}
    (hrun : Prog.run h (service.searchWithin request limit).run w = (.ok result, w')) :
    ∃ found w₁, ∀ any,
      Prog.run h (service.searchWithin request any).run w = (.ok (seen any found), w₁) := by
  obtain ⟨outcome, w₁, hall⟩ := (seenAs_searchWithin service request).exists_run h w
  cases outcome with
  | error e =>
      have hfails := congrArg Prod.fst ((hall limit).symm.trans hrun)
      cases hfails
  | ok found => exact ⟨found, w₁, hall⟩

section
variable {path : JsString} {t : Tally}
  (hrun : ∀ limit, Prog.run h (service.searchWithin request limit).run w =
    (.ok (seen limit (path, options, t)), w'))
include hrun

theorem capped_eq_false (hfew : FewEntries h service request w) : t.capped = false := by
  by_contra hcapped
  have hreached := t.reached (Bool.eq_true_of_not_eq_false hcapped)
  have hentries := hfew ⟨0, 0⟩ _ _ (hrun ⟨0, 0⟩)
  exact absurd hentries (not_lt.mpr hreached)

theorem allMatches_found (hcapped : t.capped = false) :
    AllMatches h service request w t.found := by
  intro limit hwithin
  have hkeep := Budget.keep_eq_self hwithin
  refine ⟨seen limit (path, options, t), w', hrun limit, hkeep, ?_⟩
  simp only [seen, SearchState.result, Tally.under, hcapped, hkeep, ne_eq, not_true_eq_false,
    decide_false, Bool.or_self]

/-- What the search of a request with these limits returns. -/
theorem run_search (hbudget : request.budget = .ok limit) :
    Prog.run h (service.search request).run w = (.ok (seen limit (path, options, t)).1, w') := by
  rw [search_eq hbudget, Async.run_map, hrun]
  rfl

end

/-- The search with another limit goes through as many entries. -/
theorem fewEntries_of_run {result : SearchResult × Nat}
    (hrun : Prog.run h (service.searchWithin request limit).run w = (.ok result, w'))
    (hfew : result.2 < maxSearchEntries) : FewEntries h service request w := by
  intro limit' result' w'' hrun'
  obtain ⟨found, w₁, hall⟩ := exists_found hrun
  have hone := Except.ok.inj (congrArg Prod.fst ((hall limit).symm.trans hrun))
  have hother := Except.ok.inj (congrArg Prod.fst ((hall limit').symm.trans hrun'))
  rw [← hone] at hfew
  rw [← hother]
  exact hfew

/-- A search that cuts nothing off returns all matches. -/
theorem allMatches_of_run {result : SearchResult × Nat}
    (hrun : Prog.run h (service.searchWithin request limit).run w = (.ok result, w'))
    (huncut : result.1.truncated = false) : AllMatches h service request w result.1.matches := by
  obtain ⟨⟨path, options, t⟩, w₁, hall⟩ := exists_found hrun
  have hresult := Except.ok.inj (congrArg Prod.fst ((hall limit).symm.trans hrun))
  subst hresult
  simp only [seen, SearchState.result, Tally.under, Bool.or_eq_false_iff, ne_eq,
    decide_eq_false_iff_not, not_not] at huncut
  have hfound := allMatches_found hall huncut.1
  rw [← huncut.2] at hfound
  exact hfound

/-- There is one list of all matches. -/
theorem AllMatches.unique {all all' : List SearchMatch} (hall : AllMatches h service request w all)
    (hall' : AllMatches h service request w all') : all = all' := by
  have hle : ∀ l : List SearchMatch, l ∈ [all, all'] →
      Budget.Within ⟨max all.length all'.length, max (total SearchMatch.estimatedBytes all)
        (total SearchMatch.estimatedBytes all')⟩ SearchMatch.estimatedBytes l := by
    intro l hl
    obtain rfl | hl := List.mem_cons.mp hl
    · exact ⟨le_max_left _ _, le_max_left _ _⟩
    · obtain rfl := List.mem_singleton.mp hl
      exact ⟨le_max_right _ _, le_max_right _ _⟩
  obtain ⟨result, w₁, hrun, hmatches, -⟩ := hall _ (hle all List.mem_cons_self)
  obtain ⟨result', w₂, hrun', hmatches', -⟩ := hall' _ (hle all' (by simp))
  have hresult := Except.ok.inj (congrArg Prod.fst (hrun.symm.trans hrun'))
  rw [← hmatches, ← hmatches', hresult]

/-- A search cuts a prefix off all matches exactly when no match behind one
that does not fit would fit in its place. -/
theorem search_cuts (h : Handler Call Answer W) (service : Service) (request : SearchRequest)
    (limit : Budget) (hbudget : request.budget = .ok limit) (w w' : W) (result : SearchResult)
    (hrun : Prog.run h (service.search request).run w = (.ok result, w'))
    (hfew : FewEntries h service request w) :
    ∃ all, AllMatches h service request w all ∧
      ((CutsPrefix limit result all ∧ Extends h service request w limit result) ↔
        limit.NoLaterFits SearchMatch.estimatedBytes all) := by
  obtain ⟨outcome, w₁, hall⟩ := (seenAs_searchWithin service request).exists_run h w
  cases outcome with
  | error e =>
      rw [search_eq hbudget, Async.run_map, hall] at hrun
      cases hrun
  | ok found =>
      obtain ⟨path, options, t⟩ := found
      obtain ⟨hresult, rfl⟩ := Prod.ext_iff.mp (hrun.symm.trans (run_search hall hbudget))
      obtain rfl := Except.ok.inj hresult
      have hcapped := capped_eq_false hall hfew
      refine ⟨t.found, allMatches_found hall hcapped, fun hcuts => ?_, fun hlater => ⟨?_, ?_⟩⟩
      · exact Budget.keep_prefix_iff.mp hcuts.1.isPrefix
      · refine ⟨Budget.keep_prefix_iff.mpr hlater, Budget.keep_within, ?_⟩
        simp only [seen, SearchState.result, Tally.under, hcapped, Bool.false_or, decide_eq_true_eq]
      · intro maxResults maxBytes limit' result' w'' hbudget' hle hrun'
        have hall' : ∀ any, Prog.run h
            (service.searchWithin { request with maxResults, maxBytes } any).run w =
              (.ok (seen any (path, options, t)), w') := fun any => by
          rw [searchWithin_eq hbudget hbudget', hall]
          rfl
        have hresult' := congrArg Prod.fst (hrun'.symm.trans (run_search hall' hbudget'))
        obtain rfl := Except.ok.inj hresult'
        exact Budget.keep_prefix_keep hle (Budget.keep_prefix_iff.mpr hlater)

/-! ### Two files -/

/-- The workspace with a glob that takes everything. -/
def globWorkspace : Service :=
  { oneWorkspace with minimatch := fun path glob => glob == js "**/*" || path == glob }

/-- A workspace with the files `aa` and `b`. -/
def twoFiles : Volume :=
  ⟨⟨[(["ws".toList], .directory), (["ws".toList, "aa".toList], .file [] 0o644),
      (["ws".toList, "b".toList], .file [] 0o644)], by
    change [["ws".toList], ["ws".toList, "aa".toList], ["ws".toList, "b".toList]].Nodup
    decide⟩, 0o022⟩

/-- A search of the workspace with this many bytes for its matches. -/
def searchBytes (maxBytes : Nat) : SearchRequest where
  workspaceId := js "ws"
  path := none
  glob := none
  query := none
  maxResults := none
  maxBytes := some (.ofNat maxBytes)
  maxDepth := none
  maxFileBytes := none

theorem twoFiles_run : (Prog.run perform
    (globWorkspace.searchWithin (searchBytes 65) ⟨100, 1000⟩).run twoFiles).1 = .ok
      (⟨js ".", js "**/*", none, [⟨js "aa", none, none, none⟩, ⟨js "b", none, none, none⟩], false,
        2, 0, 0⟩, 2) := by
  decide +kernel

theorem twoFiles_few : FewEntries perform globWorkspace (searchBytes 65) twoFiles :=
  fewEntries_of_run (Prod.ext twoFiles_run rfl) (by decide)

theorem twoFiles_all : AllMatches perform globWorkspace (searchBytes 65) twoFiles
    [⟨js "aa", none, none, none⟩, ⟨js "b", none, none, none⟩] :=
  allMatches_of_run (Prod.ext twoFiles_run rfl) rfl

/-- 65 bytes are enough for `b`, which comes behind `aa`. -/
theorem twoFiles_search : (Prog.run perform (globWorkspace.search (searchBytes 65)).run
    twoFiles).1 = .ok ⟨js ".", js "**/*", none, [⟨js "b", none, none, none⟩], true, 2, 0, 0⟩ := by
  decide +kernel

theorem search_cuts_two : ∃ all, AllMatches perform globWorkspace (searchBytes 65) twoFiles all ∧
    ((CutsPrefix ⟨100, 65⟩
        ⟨js ".", js "**/*", none, [⟨js "b", none, none, none⟩], true, 2, 0, 0⟩ all ∧
      Extends perform globWorkspace (searchBytes 65) twoFiles ⟨100, 65⟩
        ⟨js ".", js "**/*", none, [⟨js "b", none, none, none⟩], true, 2, 0, 0⟩) ↔
      Budget.NoLaterFits ⟨100, 65⟩ SearchMatch.estimatedBytes all) :=
  search_cuts perform globWorkspace (searchBytes 65) ⟨100, 65⟩ (by decide +kernel) twoFiles _ _
    (Prod.ext twoFiles_search rfl) twoFiles_few

/-- The match `b` is returned and the one before it is not. -/
theorem search_cuts_skipping : ∃ result,
    (searchBytes 65).budget = .ok ⟨100, 65⟩ ∧
    (Prog.run perform (globWorkspace.search (searchBytes 65)).run twoFiles).1 = .ok result ∧
    FewEntries perform globWorkspace (searchBytes 65) twoFiles ∧
    ∀ all, AllMatches perform globWorkspace (searchBytes 65) twoFiles all →
      ¬ result.matches <+: all := by
  refine ⟨_, by decide +kernel, twoFiles_search, twoFiles_few, fun all hall => ?_⟩
  obtain rfl := hall.unique twoFiles_all
  decide

end Benchhand.Filesystem
