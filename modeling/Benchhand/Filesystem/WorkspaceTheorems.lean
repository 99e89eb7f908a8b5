/-
Benchhand.Filesystem.WorkspaceTheorems — request paths and the places they name.

`normalizeRelativePath` returns plain segments joined by `/`
(`normalizeRelativePath_ok`), and one that it returned is returned again unless
it looks like a drive of another platform (`normalizeRelativePath_again`). The
string that `resolveExistingPath` looks up is `target`, and
`isSameOrDescendant` is the order of places. `Service.Root` and `Leads` are
what the lookups of a request find on a volume.
-/
import Benchhand.Filesystem.Runs
import Benchhand.Filesystem.Workspace
import Benchhand.Posix.VolumeTheorems

namespace Benchhand.Filesystem

open Text Posix

/-! ## Normal paths -/

/-- What a separator of any platform becomes. -/
def portableUnit (u : UInt16) : UInt16 := if u = ch '\\' then slash else u

/-- The segments of a request path that count. -/
def requestSegments (input : JsString) : List JsString :=
  ((input.map portableUnit).splitOn slash).filter fun s => s ≠ [] && s ≠ dot

theorem normalizeRelativePath_eq (input : JsString) (allowRoot : Bool) :
    normalizeRelativePath input allowRoot =
      if (0 : UInt16) ∈ input then
        .error
          { code := .invalidPath, path := none, message := js "path must be a NUL-free string" }
      else if isAbsolute input || win32IsAbsolute input then
        .error
          { code := .pathOutsideWorkspace, path := some input
            message := js "absolute paths are not allowed" }
      else if dotDot ∈ requestSegments input then
        .error
          { code := .pathOutsideWorkspace, path := some input
            message := js "path traversal is not allowed" }
      else if requestSegments input = [] then
        if allowRoot then .ok dot
        else
          .error
            { code := .invalidPath, path := some input
              message := js "file path must not be empty" }
      else .ok (joinSegments (requestSegments input)) := rfl

/-- A segment that a request path is normalised to. -/
structure Segment (s : JsString) : Prop extends Plain s where
  noNul : (0 : UInt16) ∉ s
  noBackslash : ch '\\' ∉ s

/-- The path of plain segments; the root is `.`. -/
def portable (segs : List JsString) : JsString := if segs = [] then dot else joinSegments segs

theorem mem_joinSegments_of_mem {u : UInt16} {s : JsString} (hu : u ∈ s) :
    ∀ {segs : List JsString}, s ∈ segs → u ∈ joinSegments segs
  | [t], hs => by
      rwa [joinSegments, List.intercalate_singleton, ← List.mem_singleton.mp hs]
  | t :: t' :: rest, hs => by
      rw [joinSegments, List.intercalate_cons_cons, List.mem_append, List.mem_append]
      obtain rfl | hs := List.mem_cons.mp hs
      · exact .inl (.inl hu)
      · exact .inr (mem_joinSegments_of_mem hu hs)

theorem mem_joinSegments {u : UInt16} : ∀ {segs : List JsString}, u ∈ joinSegments segs →
    u = slash ∨ ∃ s ∈ segs, u ∈ s
  | [], h => absurd h List.not_mem_nil
  | s :: segs, h => by
      obtain heq | heq := joinSegments_cons s segs
      · exact .inr ⟨s, List.mem_cons_self, heq ▸ h⟩
      · rw [heq, List.mem_append, List.mem_cons] at h
        obtain h | rfl | h := h
        · exact .inr ⟨s, List.mem_cons_self, h⟩
        · exact .inl rfl
        · obtain h | ⟨t, ht, hu⟩ := mem_joinSegments h
          · exact .inl h
          · exact .inr ⟨t, List.mem_cons_of_mem s ht, hu⟩

theorem requestSegments_segment {input : JsString} (hnul : (0 : UInt16) ∉ input)
    (hdots : dotDot ∉ requestSegments input) : ∀ s ∈ requestSegments input, Segment s := by
  intro s hs
  obtain ⟨hpart, hne⟩ := List.mem_filter.mp hs
  rw [Bool.and_eq_true, decide_eq_true_eq, decide_eq_true_eq] at hne
  have hunits : ∀ u ∈ s, ∃ u' ∈ input, portableUnit u' = u := by
    intro u hu
    exact List.mem_map.mp (mem_of_mem_splitOn s hpart hu)
  refine ⟨⟨hne.1, hne.2, fun heq => hdots (heq ▸ hs), not_mem_of_mem_splitOn s hpart⟩, ?_, ?_⟩
  · intro hmem
    obtain ⟨u, hu, heq⟩ := hunits 0 hmem
    unfold portableUnit at heq
    split at heq
    · exact absurd heq (by decide)
    · exact hnul (heq ▸ hu)
  · intro hmem
    obtain ⟨u, -, heq⟩ := hunits _ hmem
    unfold portableUnit at heq
    split at heq
    · exact absurd heq (by decide)
    · rename_i hne
      exact hne heq

/-- A request path is accepted as plain segments joined by `/`. -/
theorem normalizeRelativePath_ok {input path : JsString} {allowRoot : Bool}
    (h : normalizeRelativePath input allowRoot = .ok path) :
    ∃ segs, (∀ s ∈ segs, Segment s) ∧ (segs = [] → allowRoot = true) ∧ path = portable segs := by
  rw [normalizeRelativePath_eq] at h
  split at h
  · cases h
  rename_i hnul
  split at h
  · cases h
  split at h
  · cases h
  rename_i hdots
  refine ⟨requestSegments input, requestSegments_segment hnul hdots, ?_⟩
  split at h
  · rename_i hnil
    split at h
    · rename_i hroot
      exact ⟨fun _ => hroot, by rw [portable, if_pos hnil]; exact (Except.ok.inj h).symm⟩
    · cases h
  · rename_i hnil
    exact ⟨fun hnil' => absurd hnil' hnil, by
      rw [portable, if_neg hnil]; exact (Except.ok.inj h).symm⟩

/-- A request path that is not for the root has a last segment. -/
theorem normalizeRelativePath_last {input path : JsString}
    (h : normalizeRelativePath input false = .ok path) :
    ∃ segs name, (∀ s ∈ segs ++ [name], Segment s) ∧ path = portable (segs ++ [name]) := by
  obtain ⟨segs, hsegments, hne, rfl⟩ := normalizeRelativePath_ok h
  obtain rfl | ⟨segs, name, rfl⟩ := List.eq_nil_or_concat' segs
  · exact absurd (hne rfl) (by decide)
  · exact ⟨segs, name, hsegments, rfl⟩

theorem joinSegments_ne_nil {segs : List JsString} (hne : segs ≠ []) (h : ∀ s ∈ segs, Plain s) :
    joinSegments segs ≠ [] := by
  intro hnil
  have hsegs := segments_joinSegments fun s hs => ⟨(h s hs).ne_nil, (h s hs).noSlash⟩
  rw [hnil] at hsegs
  exact hne hsegs.symm

theorem joinSegments_ne_dot {segs : List JsString} (h : ∀ s ∈ segs, Plain s) :
    joinSegments segs ≠ dot := by
  intro hdot
  have hback := segments_joinSegments fun s hs => ⟨(h s hs).ne_nil, (h s hs).noSlash⟩
  have hmem : dot ∈ segs := by
    rw [← hback, hdot]
    decide
  exact (h dot hmem).ne_dot rfl

/-- A path has one list of plain segments. -/
theorem portable_injective {segs segs' : List JsString} (h : ∀ s ∈ segs, Plain s)
    (h' : ∀ s ∈ segs', Plain s) (heq : portable segs = portable segs') : segs = segs' := by
  unfold portable at heq
  split at heq
  · rename_i hnil
    split at heq
    · rename_i hnil'
      rw [hnil, hnil']
    · exact absurd heq.symm (joinSegments_ne_dot h')
  · split at heq
    · exact absurd heq (joinSegments_ne_dot h)
    · have hback := segments_joinSegments fun s hs => ⟨(h s hs).ne_nil, (h s hs).noSlash⟩
      rw [← hback, heq, segments_joinSegments fun s hs => ⟨(h' s hs).ne_nil, (h' s hs).noSlash⟩]

theorem joinPortable_portable {segs : List JsString} (h : ∀ s ∈ segs, Plain s) (name : JsString) :
    joinPortable (portable segs) name = portable (segs ++ [name]) := by
  by_cases hnil : segs = []
  · subst hnil
    rw [portable, if_pos rfl, joinPortable, if_pos rfl]
    simp [portable, joinSegments]
  · rw [portable, if_neg hnil, joinPortable, if_neg (joinSegments_ne_dot h), portable,
      if_neg (by simp), joinSegments_concat hnil]

theorem isAbsolute_plain {s : JsString} (hs : Plain s) (t : JsString) :
    isAbsolute (s ++ t) = false := by
  obtain ⟨u, rest, rfl⟩ := List.exists_cons_of_ne_nil hs.ne_nil
  exact beq_eq_false_iff_ne.mpr fun heq =>
    hs.noSlash (Option.some.inj heq ▸ List.mem_cons_self)

theorem isAbsolute_joinSegments {segs : List JsString} (h : ∀ s ∈ segs, Plain s) :
    isAbsolute (joinSegments segs) = false := by
  cases segs with
  | nil => rfl
  | cons s rest =>
      have hs := h s List.mem_cons_self
      obtain heq | heq := joinSegments_cons s rest
      · rw [heq, ← List.append_nil s, isAbsolute_plain hs]
      · rw [heq, isAbsolute_plain hs]

/-- A path without backslashes is cut into its own segments again. -/
theorem requestSegments_portable {segs : List JsString} (h : ∀ s ∈ segs, Plain s)
    (hback : ch '\\' ∉ portable segs) : requestSegments (portable segs) = segs := by
  by_cases hne : segs = []
  · rw [hne]
    decide
  have hmap : (portable segs).map portableUnit = portable segs := by
    refine (List.map_congr_left fun u hu => ?_).trans (List.map_id _)
    have hne : u ≠ ch '\\' := fun heq => hback (heq ▸ hu)
    exact if_neg hne
  have hfilter : ∀ l : List JsString, (l.filter fun s => s ≠ [] && s ≠ dot) =
      (l.filter fun s => s ≠ []).filter fun s => s ≠ dot := by
    intro l
    rw [List.filter_filter]
    exact List.filter_congr fun s _ => Bool.and_comm _ _
  rw [requestSegments, hmap, portable, if_neg hne, hfilter]
  change (segments (joinSegments segs)).filter _ = segs
  rw [segments_joinSegments fun s hs => ⟨(h s hs).ne_nil, (h s hs).noSlash⟩]
  exact List.filter_eq_self.mpr fun s hs => by simpa using (h s hs).ne_dot

/-- Plain segments are accepted again and unchanged exactly when they have no
backslash and do not look like a path of another platform. -/
theorem normalizeRelativePath_portable {segs : List JsString} (hplain : ∀ s ∈ segs, Plain s)
    (hnul : (0 : UInt16) ∉ portable segs) {allowRoot : Bool} (hroot : segs = [] → allowRoot = true) :
    normalizeRelativePath (portable segs) allowRoot = .ok (portable segs) ↔
      ch '\\' ∉ portable segs ∧ win32IsAbsolute (portable segs) = false := by
  have habs : isAbsolute (portable segs) = false := by
    unfold portable
    split
    · decide
    · exact isAbsolute_joinSegments hplain
  constructor
  · intro h
    constructor
    · obtain ⟨segs', hsegs', -, heq⟩ := normalizeRelativePath_ok h
      rw [heq]
      unfold portable
      split
      · decide
      · intro hmem
        obtain hslash | ⟨s, hs, hu⟩ := mem_joinSegments hmem
        · exact absurd hslash (by decide)
        · exact (hsegs' s hs).noBackslash hu
    · rw [normalizeRelativePath_eq, if_neg hnul] at h
      split at h
      · cases h
      · rename_i hwin
        simpa [habs] using hwin
  · intro h
    have hdots : dotDot ∉ segs := fun hmem => (hplain _ hmem).ne_dotDot rfl
    rw [normalizeRelativePath_eq, if_neg hnul, habs, h.2, requestSegments_portable hplain h.1,
      if_neg (by simp), if_neg hdots]
    split
    · rename_i hnil
      rw [if_pos (hroot hnil), portable, if_pos hnil]
    · rename_i hnil
      rw [portable, if_neg hnil]

/-! ## Parents -/

theorem basename_portable {segs : List JsString} {s : JsString} (hs : Plain s) :
    basename (portable (segs ++ [s])) = s := by
  rw [portable, if_neg (by simp), basename_joinSegments hs]

theorem dirname_portable {segs : List JsString} (h : ∀ t ∈ segs, Plain t) {s : JsString}
    (hs : Plain s) : dirname (portable (segs ++ [s])) = portable segs := by
  have hconcat : segs ++ [s] ≠ [] := by simp
  rw [portable, if_neg hconcat, portable]
  by_cases hsegs : segs = []
  · have hspan := (span_reverse hs []).2
    have habs := isAbsolute_plain hs []
    rw [List.append_nil] at hspan habs
    rw [if_pos hsegs, hsegs, List.nil_append, joinSegments, List.intercalate_singleton, dirname,
      hspan, habs]
    rfl
  · have hne := joinSegments_ne_nil hsegs h
    have habs : isAbsolute (joinSegments segs ++ slash :: s) = false := by
      have := isAbsolute_joinSegments h
      obtain ⟨u, rest, hcons⟩ := List.exists_cons_of_ne_nil hne
      rwa [hcons] at this ⊢
    have hspan := (span_reverse hs (slash :: (joinSegments segs).reverse)).2
    rw [List.dropWhile_cons_of_neg (by simp)] at hspan
    rw [if_neg hsegs, joinSegments_concat hsegs, dirname, List.reverse_append, List.reverse_cons,
      List.append_assoc, List.singleton_append, hspan, habs]
    simp [hne]

/-! ## The string that is looked up -/

/-- The path string of segments below a root. -/
def target (root : Path) (segs : List JsString) : JsString :=
  slash :: joinSegments (root.map Name.text ++ segs)

theorem target_nil (root : Path) : target root [] = root.text := by
  rw [target, List.append_nil, Path.text]

theorem plain_target {root : Path} (hroot : root.Plain) {segs : List JsString}
    (h : ∀ s ∈ segs, Plain s) : ∀ s ∈ root.map Name.text ++ segs, Plain s := fun s hs =>
  (List.mem_append.mp hs).elim (hroot.segment s) (h s)

theorem segments_target {root : Path} (hroot : root.Plain) {segs : List JsString}
    (h : ∀ s ∈ segs, Plain s) : segments (target root segs) = root.map Name.text ++ segs := by
  have hplain := plain_target hroot h
  rw [target, segments_slash_cons]
  exact segments_joinSegments fun s hs => ⟨(hplain s hs).ne_nil, (hplain s hs).noSlash⟩

/-- The names of the target are those of the root and the encoded segments. -/
theorem components_target {root : Path} (hroot : root.Plain) {segs : List JsString}
    (h : ∀ s ∈ segs, Plain s) :
    components (scalars (target root segs)) = root ++ segs.map scalars := by
  have hsegs := segments_target hroot h
  rw [components_scalars fun s hs => (plain_target hroot h s (hsegs ▸ hs)).ne_dot, hsegs,
    List.map_append, List.map_map]
  congr 1
  exact (List.map_congr_left fun name _ => scalars_flatMap_units name).trans (List.map_id root)

theorem resolvePending_append : ∀ {segs : List JsString}, (∀ s ∈ segs, Plain s) →
    ∀ pending : JsString,
      segments (segs.foldl (fun pending p =>
        if p = [] then pending else if isAbsolute p then p else pending ++ slash :: p) pending) =
      segments pending ++ segs
  | [], _, pending => by rw [List.foldl_nil, List.append_nil]
  | s :: segs, h, pending => by
      have hs := h s List.mem_cons_self
      have habs := isAbsolute_plain hs []
      rw [List.append_nil] at habs
      rw [List.foldl_cons, if_neg hs.ne_nil, habs, if_neg (by simp),
        resolvePending_append fun t ht => h t (List.mem_cons_of_mem s ht), segments_append_slash,
        segments_eq_singleton hs, List.append_assoc, List.singleton_append]

theorem resolve_text {root : Path} (hroot : root.Plain) {segs : List JsString}
    (h : ∀ s ∈ segs, Plain s) : resolve (root.text :: segs) = target root segs := by
  have hpending : segments (resolvePending (root.text :: segs)) = root.map Name.text ++ segs := by
    have hfirst : resolvePending (root.text :: segs) = segs.foldl (fun pending p =>
        if p = [] then pending else if isAbsolute p then p else pending ++ slash :: p)
        root.text := rfl
    rw [hfirst, resolvePending_append h, segments_text hroot]
  have hplain := plain_target hroot h
  rw [resolve, normalizeSegments_eq fun s hs => ?_, hpending, target]
  have hs := hplain s (hpending ▸ hs)
  exact ⟨hs.ne_dot, hs.ne_dotDot⟩

/-- What `resolveExistingPath` looks up. -/
theorem candidate_eq {root : Path} (hroot : root.Plain) {segs : List JsString}
    (h : ∀ s ∈ segs, Plain s) :
    (if portable segs = dot then root.text
      else resolve (root.text :: ((portable segs).splitOn slash).filter fun s => s ≠ [])) =
      target root segs := by
  by_cases hnil : segs = []
  · rw [hnil, portable, if_pos rfl, if_pos rfl, target_nil]
  have hsegs : ((joinSegments segs).splitOn slash).filter (fun s => s ≠ []) = segs :=
    segments_joinSegments fun s hs => ⟨(h s hs).ne_nil, (h s hs).noSlash⟩
  rw [portable, if_neg hnil, if_neg (joinSegments_ne_dot h), hsegs, resolve_text hroot h]

/-! ## Places in the workspace -/

theorem isAbsolute_target (root : Path) (segs : List JsString) :
    isAbsolute (target root segs) = true := beq_self_eq_true _

/-- A path string is inside the root just when it goes on from its segments. -/
theorem isSameOrDescendant_target {root base : Path} (hroot : root.Plain) (hbase : base.Plain)
    {segs : List JsString} (h : ∀ s ∈ segs, Plain s) :
    isSameOrDescendant root.text (target base segs) = true ↔
      root.map Name.text <+: base.map Name.text ++ segs := by
  have hp : isAbsolute root.text = true := beq_self_eq_true _
  have hq := isAbsolute_target base segs
  have hpp : ∀ s ∈ segments root.text, Plain s := fun s hs =>
    hroot.segment s (segments_text hroot ▸ hs)
  have hqp : ∀ s ∈ segments (target base segs), Plain s := fun s hs =>
    plain_target hbase h s (segments_target hbase h ▸ hs)
  rw [← segments_text hroot, ← segments_target hbase h]
  by_cases hprefix : segments root.text <+: segments (target base segs)
  · refine iff_of_true ?_ hprefix
    have hrest : ∀ s ∈ (segments (target base segs)).drop (segments root.text).length, Plain s :=
      fun s hs => hqp s (List.mem_of_mem_drop hs)
    rw [isSameOrDescendant, relative_of_prefix hp hq hpp hqp hprefix]
    generalize (segments (target base segs)).drop (segments root.text).length = rest at hrest
    cases rest with
    | nil => rfl
    | cons s rest =>
        have hs := hrest s List.mem_cons_self
        have habs := isAbsolute_joinSegments hrest
        have hdots : joinSegments (s :: rest) ≠ dotDot := by
          intro heq
          have hback := segments_joinSegments fun t ht =>
            ⟨(hrest t ht).ne_nil, (hrest t ht).noSlash⟩
          rw [heq] at hback
          have hmem : dotDot ∈ s :: rest := by
            rw [← hback]
            decide
          exact (hrest _ hmem).ne_dotDot rfl
        have hup : (dotDot ++ [slash]).isPrefixOf (joinSegments (s :: rest)) = false := by
          rw [Bool.eq_false_iff, ne_eq, List.isPrefixOf_iff_prefix]
          intro hup
          obtain ⟨tail, htail⟩ := hup
          have hback := segments_joinSegments fun t ht =>
            ⟨(hrest t ht).ne_nil, (hrest t ht).noSlash⟩
          rw [← htail, List.append_assoc, List.singleton_append, segments_append_slash] at hback
          have hmem : dotDot ∈ s :: rest := by
            rw [← hback]
            exact List.mem_append_left _ (by decide)
          exact (hrest _ hmem).ne_dotDot rfl
        simp [habs, hdots, hup]
  · refine iff_of_false ?_ hprefix
    obtain ⟨rest, hrest⟩ := relative_of_not_prefix hp hq hpp hqp hprefix
    rw [isSameOrDescendant, hrest]
    obtain heq | heq := joinSegments_cons dotDot rest
    · rw [heq]
      decide
    · have hup : (dotDot ++ [slash]).isPrefixOf (dotDot ++ slash :: joinSegments rest) = true := by
        rw [List.isPrefixOf_iff_prefix]
        exact ⟨joinSegments rest, by simp⟩
      rw [heq, hup]
      simp [dotDot]

theorem text_injective : Function.Injective Name.text := fun a b h => by
  rw [← scalars_flatMap_units a, ← scalars_flatMap_units b]
  exact congrArg scalars h

theorem isSameOrDescendant_text {root place : Path} (hroot : root.Plain) (hplace : place.Plain) :
    isSameOrDescendant root.text place.text = true ↔ root <+: place := by
  rw [← target_nil place, isSameOrDescendant_target hroot hplace (by simp), List.append_nil]
  exact List.prefix_map_iff_of_injective text_injective

/-! ## Lookups of a request -/

/-- The workspace of an id is available and has its root at a place. -/
structure Service.Root (service : Service) (v : Volume) (id : JsString) (root : Path) : Prop where
  record : service.resolveWorkspace id = .ok (some ⟨root.text, .available⟩)
  lands : v.Lands true root
  found : (v.node? root).isSome

/-- Segments below the root lead to a place in the workspace. -/
structure Leads (v : Volume) (root : Path) (segs : List JsString) (place : Path) : Prop where
  located : v.locate true (target root segs) = .ok place
  found : (v.node? place).isSome
  inside : root <+: place

/-- Segments below a directory lead to the place below it. -/
theorem Leads.below {v v' : Volume} (hways : v.KeepsWays v') {root : Path} (hroot : root.Plain)
    {segs more : List JsString} (hsegs : ∀ s ∈ segs ++ more, Plain s) {dir : Path}
    (h : Leads v root segs dir) (hdir : v.node? dir = some .directory) {follow : Bool}
    (hfollow : more = [] → follow = true)
    (hlands : v'.Lands follow (dir ++ more.map scalars)) :
    v'.locate follow (target root (segs ++ more)) = .ok (dir ++ more.map scalars) := by
  have hlocated := h.located
  rw [Volume.locate,
    components_target hroot fun s hs => hsegs s (List.mem_append_left _ hs)] at hlocated
  rw [Volume.locate, components_target hroot hsegs, List.map_append, ← List.append_assoc]
  exact Volume.walk_append hways hdir (fun hnil => hfollow (List.map_eq_nil_iff.mp hnil)) hlands
    linkMax _ hlocated

theorem Leads.lands {v : Volume} {root : Path} {segs : List JsString} {place : Path}
    (h : Leads v root segs place) : v.Lands true place := Volume.lands_of_locate h.located

section
variable {service : Service} {v : Volume} {id : JsString} {root : Path}

theorem settles_accessWorkspace (h : service.Root v id root) :
    Settles (service.accessWorkspace id) v root.text v := by
  obtain ⟨node, hnode⟩ := Option.isSome_iff_exists.mp h.found
  have hrealpath : perform (.realpath root.text) v = (.ok root.text, v) :=
    perform_realpath.mpr ⟨rfl, root, node, Volume.locate_text h.lands, hnode, rfl⟩
  rw [Service.accessWorkspace, h.record]
  dsimp only
  refine settles_bind (settles_failWhen (by simp)) ?_
  refine settles_bind (settles_mapError (settles_call hrealpath)) ?_
  exact settles_bind (settles_failWhen (by simp)) settles_pure

theorem yields_accessWorkspace {outside : Nat → Turn} (halone : Alone outside)
    {Q : JsString → Volume → Prop} (hQ : ∀ root, service.Root v id root → Q root.text v) :
    Yields outside (service.accessWorkspace id) Q v := by
  unfold Service.accessWorkspace
  split
  · exact yields_throw _
  · exact yields_fail
  · rename_i workspace hrecord
    refine yields_bind (yields_failWhen fun hstatus => ?_)
    refine yields_bind (yields_mapError ?_)
    refine yields_call halone fun canonical v' hrealpath => ?_
    refine yields_bind (yields_failWhen fun hpath => yields_pure ?_)
    obtain ⟨rfl, place, node, hlocate, hnode, rfl⟩ := perform_realpath.mp hrealpath
    rw [decide_eq_false_iff_not, not_not] at hstatus hpath
    refine hQ place ⟨?_, Volume.lands_of_locate hlocate, by simp [hnode]⟩
    rw [hrecord, hpath, ← hstatus]

variable {segs : List JsString} {place : Path}

theorem settles_resolveExistingPath (hroot : root.Plain) (hsegs : ∀ s ∈ segs, Plain s)
    (h : Leads v root segs place) :
    Settles (resolveExistingPath root.text (portable segs)) v place.text v := by
  obtain ⟨node, hnode⟩ := Option.isSome_iff_exists.mp h.found
  have hrealpath : perform (.realpath (target root segs)) v = (.ok place.text, v) :=
    perform_realpath.mpr ⟨rfl, place, node, h.located, hnode, rfl⟩
  have hbefore : (!isSameOrDescendant root.text (target root segs)) = false := by
    rw [(isSameOrDescendant_target hroot hroot hsegs).mpr (List.prefix_append _ _)]
    rfl
  have hafter : (!isSameOrDescendant root.text place.text) = false := by
    rw [(isSameOrDescendant_text hroot h.lands.plain).mpr h.inside]
    rfl
  unfold resolveExistingPath
  simp only [candidate_eq hroot hsegs]
  refine settles_bind (settles_failWhen hbefore) ?_
  refine settles_bind (settles_mapError (settles_call hrealpath)) ?_
  exact settles_bind (settles_failWhen hafter) settles_pure

theorem yields_resolveExistingPath {outside : Nat → Turn} (halone : Alone outside)
    (hroot : root.Plain) (hsegs : ∀ s ∈ segs, Plain s) {Q : JsString → Volume → Prop}
    (hQ : ∀ place, Leads v root segs place → Q place.text v) :
    Yields outside (resolveExistingPath root.text (portable segs)) Q v := by
  unfold resolveExistingPath
  simp only [candidate_eq hroot hsegs]
  refine yields_bind (yields_failWhen fun _ => ?_)
  refine yields_bind (yields_mapError ?_)
  refine yields_call halone fun canonical v' hrealpath => ?_
  refine yields_bind (yields_failWhen fun hinside => yields_pure ?_)
  obtain ⟨rfl, place, node, hlocate, hnode, rfl⟩ := perform_realpath.mp hrealpath
  rw [Bool.not_eq_false'] at hinside
  refine hQ place ⟨hlocate, by simp [hnode], ?_⟩
  exact (isSameOrDescendant_text hroot (Volume.lands_of_locate hlocate).plain).mp hinside

end

end Benchhand.Filesystem
