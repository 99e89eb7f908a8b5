/-
Benchhand.Posix.PathTheorems — path strings and the names they stand for.

A string whose segments are plain (no `.`, `..`) is left alone by the path
functions: `segments_text`, `segments_join`, `basename_joinSegments`. The
encoder commutes with splitting (`components_scalars`), so the names of a path
are the encoded segments of its string. `relative_iff` reads the prefix test
on `path.relative` as a prefix test on segments.
-/
import Benchhand.Posix.Path

namespace Benchhand.Posix

open Text

/-! ## ASCII scalars -/

theorem scalarOf_eq_iff {n : Nat} {c : Char} (hc : c.toNat < 0x80) :
    scalarOf n = c ↔ n = c.toNat := by
  constructor
  · intro h
    by_cases hn : n.isValidChar
    · rw [← h, toNat_scalarOf hn]
    · rw [scalarOf, dif_neg hn] at h
      rw [← h] at hc
      exact absurd hc (by decide)
  · rintro rfl
    exact scalarOf_toNat c

theorem mem_codePoints {s : JsString} {n : Nat} (hn : n < 0x80) (h : n ∈ codePoints s) :
    UInt16.ofNat n ∈ s := by
  induction s using codePoints.induct with
  | case1 => exact absurd h List.not_mem_nil
  | case2 u =>
      rw [codePoints, List.mem_singleton] at h
      rw [h, UInt16.ofNat_toNat]
      exact List.mem_singleton_self u
  | case3 u v rest hp ih =>
      rw [codePoints, if_pos hp, List.mem_cons] at h
      rw [Bool.and_eq_true, isHigh_iff, isLow_iff] at hp
      obtain h | h := h
      · rw [pairPoint_eq] at h
        omega
      · exact List.mem_cons_of_mem _ (List.mem_cons_of_mem _ (ih h))
  | case4 u v rest hp ih =>
      rw [codePoints, if_neg hp, List.mem_cons] at h
      obtain h | h := h
      · rw [h, UInt16.ofNat_toNat]
        exact List.mem_cons_self
      · exact List.mem_cons_of_mem _ (ih h)

/-- The encoder writes an ASCII character for that unit only. -/
theorem mem_scalars {s : JsString} {c : Char} (hc : c.toNat < 0x80) (h : c ∈ scalars s) :
    ch c ∈ s := by
  obtain ⟨n, hn, hscalar⟩ := List.mem_map.mp h
  rw [scalarOf_eq_iff hc] at hscalar
  exact mem_codePoints hc (hscalar ▸ hn)

/-- Only one string is encoded as given ASCII characters. -/
theorem eq_of_scalars {s : JsString} {cs : List Char} (hcs : ∀ c ∈ cs, c.toNat < 0x80)
    (h : scalars s = cs) : s = cs.flatMap units := by
  have hwell : WellFormed s := by
    intro n hn
    have hmem : scalarOf n ∈ cs := h ▸ List.mem_map_of_mem hn
    have hn' := (scalarOf_eq_iff (hcs _ hmem)).mp rfl
    rw [hn']
    exact (scalarOf n).valid
  rw [← h, hwell.flatMap_units_scalars]

theorem scalars_append_slash (a b : JsString) :
    scalars (a ++ slash :: b) = scalars a ++ '/' :: scalars b := by
  have hmeet : ¬ (endsHigh a = true ∧ startsLow (slash :: b) = true) := by
    rw [startsLow_cons]
    exact fun h => absurd h.2 (by decide)
  have hpair : ¬ (isHigh slash = true ∧ startsLow b = true) := fun h => absurd h.1 (by decide)
  rw [scalars, codePoints_append hmeet, codePoints_cons_of_not_pair hpair, List.map_append,
    List.map_cons]
  rfl

theorem scalars_ne_nil {s : JsString} (h : s ≠ []) : scalars s ≠ [] := by
  intro hnil
  have hempty : ∀ c ∈ ([] : List Char), c.toNat < 0x80 := List.forall_mem_nil _
  exact h (eq_of_scalars hempty hnil)

/-! ## Splitting -/

/-- A segment that the path functions leave alone. -/
structure Plain (segment : JsString) : Prop where
  ne_nil : segment ≠ []
  ne_dot : segment ≠ dot
  ne_dotDot : segment ≠ dotDot
  noSlash : slash ∉ segment

/-- The segments of a path string, without the empty ones. -/
def segments (p : JsString) : List JsString := (p.splitOn slash).filter fun s => s ≠ []

theorem segments_slash_cons (p : JsString) : segments (slash :: p) = segments p := by
  rw [segments, List.splitOn_cons_eq_if_modifyHead, if_pos (beq_self_eq_true slash)]
  rfl

theorem segments_append_slash (p q : JsString) :
    segments (p ++ slash :: q) = segments p ++ segments q := by
  rw [segments, List.splitOn_append_cons_self, List.filter_append]
  rfl

theorem segments_joinSegments {segs : List JsString} (h : ∀ s ∈ segs, s ≠ [] ∧ slash ∉ s) :
    segments (joinSegments segs) = segs := by
  cases hsegs : segs with
  | nil => rfl
  | cons s rest =>
      rw [← hsegs, segments, joinSegments,
        List.splitOn_intercalate _ (fun s hs => (h s hs).2) (by simp [hsegs])]
      exact List.filter_eq_self.mpr fun s hs => by simpa using (h s hs).1

theorem pushSegment_nil {above : Bool} (kept : List JsString) :
    pushSegment above kept [] = kept := if_pos (.inl rfl)

theorem pushSegment_plain {above : Bool} (kept : List JsString) {s : JsString} (hnil : s ≠ [])
    (hdot : s ≠ dot) (hdots : s ≠ dotDot) : pushSegment above kept s = s :: kept := by
  rw [pushSegment.eq_def, if_neg (not_or.mpr ⟨hnil, hdot⟩), if_neg hdots]

theorem foldl_pushSegment {above : Bool} :
    ∀ (segs kept : List JsString), (∀ s ∈ segs, s ≠ dot ∧ s ≠ dotDot) →
      segs.foldl (pushSegment above) kept = (segs.filter fun s => s ≠ []).reverse ++ kept
  | [], kept, _ => rfl
  | s :: segs, kept, h => by
      have hs := h s List.mem_cons_self
      have hrest := fun t ht => h t (List.mem_cons_of_mem s ht)
      rw [List.foldl_cons, foldl_pushSegment segs _ hrest]
      by_cases hnil : s = []
      · rw [hnil, pushSegment_nil]
        simp
      · rw [pushSegment_plain kept hnil hs.1 hs.2]
        simp [hnil]

/-- Nothing to normalise where no segment is `.` or `..`. -/
theorem normalizeSegments_eq {above : Bool} {p : JsString}
    (h : ∀ s ∈ segments p, s ≠ dot ∧ s ≠ dotDot) : normalizeSegments above p = segments p := by
  have hsplit : ∀ s ∈ p.splitOn slash, s ≠ dot ∧ s ≠ dotDot := by
    intro s hs
    by_cases hnil : s = []
    · rw [hnil]
      exact ⟨by decide, by decide⟩
    · exact h s (List.mem_filter.mpr ⟨hs, by simpa using hnil⟩)
  rw [normalizeSegments, foldl_pushSegment _ _ hsplit, List.append_nil, List.reverse_reverse]
  rfl

/-- The parts of a list between separators have no separator. -/
theorem not_mem_of_mem_splitOn {α : Type} [DecidableEq α] {a : α} {l : List α} :
    ∀ part ∈ l.splitOn a, a ∉ part := by
  induction l with
  | nil => simp
  | cons u l ih =>
      rw [List.splitOn_cons_eq_if_modifyHead]
      split
      · simpa using ih
      · rename_i hu
        intro s hs
        cases hsplit : l.splitOn a with
        | nil => simp [hsplit] at hs
        | cons t rest =>
            rw [hsplit] at hs ih
            obtain rfl | hs := List.mem_cons.mp hs
            · rw [List.mem_cons, not_or]
              exact ⟨fun h => hu (by simp [h]), ih t List.mem_cons_self⟩
            · exact ih s (List.mem_cons_of_mem t hs)

theorem mem_of_mem_splitOn {α : Type} [DecidableEq α] {a x : α} {l : List α} :
    ∀ part ∈ l.splitOn a, x ∈ part → x ∈ l := by
  induction l with
  | nil => simp
  | cons u l ih =>
      rw [List.splitOn_cons_eq_if_modifyHead]
      split
      · intro s hs hx
        obtain rfl | hs := List.mem_cons.mp hs
        · exact absurd hx List.not_mem_nil
        · exact List.mem_cons_of_mem u (ih s hs hx)
      · intro s hs hx
        cases hsplit : l.splitOn a with
        | nil => simp [hsplit] at hs
        | cons t rest =>
            rw [hsplit] at hs ih
            obtain rfl | hs := List.mem_cons.mp hs
            · obtain rfl | hx := List.mem_cons.mp hx
              · exact List.mem_cons_self
              · exact List.mem_cons_of_mem u (ih t List.mem_cons_self hx)
            · exact List.mem_cons_of_mem u (ih s (List.mem_cons_of_mem t hs) hx)

/-- The encoder commutes with splitting. -/
theorem splitOn_scalars (p : JsString) :
    (scalars p).splitOn '/' = (p.splitOn slash).map scalars := by
  have hscalars : ∀ segs : List JsString, segs ≠ [] → (∀ s ∈ segs, slash ∉ s) →
      (scalars ([slash].intercalate segs)).splitOn '/' = segs.map scalars := by
    intro segs
    induction segs with
    | nil => exact fun h => absurd rfl h
    | cons s segs ih =>
        intro _ hno
        have hs : '/' ∉ scalars s := fun hmem =>
          hno s List.mem_cons_self (mem_scalars (by decide) hmem)
        cases segs with
        | nil => simpa using List.splitOn_eq_singleton hs
        | cons t segs =>
            rw [List.intercalate_cons_cons, List.append_assoc, List.singleton_append,
              scalars_append_slash, List.splitOn_append_cons_self_of_not_mem hs,
              ih (by simp) fun u hu => hno u (List.mem_cons_of_mem s hu)]
            rfl
  have hp := hscalars _ (List.splitOn_ne_nil slash p) not_mem_of_mem_splitOn
  rwa [List.intercalate_splitOn] at hp

theorem scalars_dot : scalars dot = ['.'] := by decide

theorem scalars_dotDot : scalars dotDot = parentName := by decide

/-- The names of a path string are its encoded segments. -/
theorem components_scalars {p : JsString} (h : ∀ s ∈ segments p, s ≠ dot) :
    components (scalars p) = (segments p).map scalars := by
  rw [components, splitOn_scalars, List.filter_map, segments]
  congr 1
  refine List.filter_congr fun s hs => ?_
  by_cases hnil : s = []
  · simp [hnil, scalars, codePoints]
  · have hdot : scalars s ≠ ['.'] := fun heq =>
      h s (List.mem_filter.mpr ⟨hs, by simpa using hnil⟩)
        (eq_of_scalars (by simp) heq)
    simp [hnil, hdot, scalars_ne_nil hnil]

/-! ## Plain paths -/

theorem Plain.of_name {name : Name} (h : name.Plain) : Plain name.text := by
  have hback : scalars name.text = name := scalars_flatMap_units name
  refine ⟨fun heq => h.ne_nil ?_, fun heq => h.ne_dot ?_, fun heq => h.ne_dotDot ?_,
    fun hmem => h.noSlash ?_⟩
  · rw [← hback, heq]; rfl
  · rw [← hback, heq, scalars_dot]
  · rw [← hback, heq, scalars_dotDot]
  · obtain ⟨before, after, hsplit⟩ := List.append_of_mem hmem
    rw [← hback, hsplit, scalars_append_slash]
    exact List.mem_append_right _ List.mem_cons_self

theorem Plain.name {s : JsString} (h : Plain s) : Name.Plain (scalars s) where
  ne_nil := scalars_ne_nil h.ne_nil
  ne_dot heq := h.ne_dot (eq_of_scalars (by simp) heq)
  ne_dotDot heq := h.ne_dotDot (eq_of_scalars (by simp [parentName]) heq)
  noSlash hmem := h.noSlash (mem_scalars (by decide) hmem)

/-- Every name of the path is plain. -/
def Path.Plain (path : Path) : Prop := ∀ name ∈ path, name.Plain

theorem Path.Plain.segment {path : Path} (h : path.Plain) :
    ∀ s ∈ path.map Name.text, Posix.Plain s := by
  intro s hs
  obtain ⟨name, hname, rfl⟩ := List.mem_map.mp hs
  exact .of_name (h name hname)

theorem segments_text {path : Path} (h : path.Plain) :
    segments path.text = path.map Name.text := by
  rw [Path.text, segments_slash_cons]
  exact segments_joinSegments fun s hs => ⟨(h.segment s hs).ne_nil, (h.segment s hs).noSlash⟩

theorem components_text {path : Path} (h : path.Plain) :
    components (scalars path.text) = path := by
  rw [components_scalars fun s hs => (h.segment s (segments_text h ▸ hs)).ne_dot,
    segments_text h, List.map_map]
  exact (List.map_congr_left fun name _ => scalars_flatMap_units name).trans (List.map_id path)

theorem segments_eq_singleton {s : JsString} (h : Plain s) : segments s = [s] := by
  rw [segments, List.splitOn_eq_singleton h.noSlash]
  exact List.filter_eq_self.mpr fun t ht => by simpa [List.mem_singleton.mp ht] using h.ne_nil

theorem getLast?_ne_slash {s : JsString} (h : Plain s) (p : JsString) :
    ((p ++ slash :: s).getLast? == some slash) = false := by
  rw [beq_eq_false_iff_ne, List.getLast?_append_cons, List.getLast?_cons,
    List.getLast?_eq_getLast_of_ne_nil h.ne_nil]
  exact fun heq => h.noSlash (Option.some.inj heq ▸ List.getLast_mem h.ne_nil)

theorem joinSegments_concat {segs : List JsString} (h : segs ≠ []) (s : JsString) :
    joinSegments (segs ++ [s]) = joinSegments segs ++ slash :: s := by
  induction segs with
  | nil => exact absurd rfl h
  | cons t segs ih =>
      unfold joinSegments at ih ⊢
      cases segs with
      | nil => simp
      | cons u segs =>
          rw [List.cons_append, List.cons_append, List.intercalate_cons_cons, ← List.cons_append,
            ih (by simp), List.intercalate_cons_cons]
          simp only [List.append_assoc]

theorem joinSegments_concat_ne_nil {s : JsString} (h : s ≠ []) (segs : List JsString) :
    joinSegments (segs ++ [s]) ≠ [] := by
  by_cases hsegs : segs = []
  · rwa [hsegs, List.nil_append, joinSegments, List.intercalate_singleton]
  · rw [joinSegments_concat hsegs]
    simp

/-- A plain name under a plain absolute path is joined as it stands. -/
theorem join_text {path : Path} (hpath : path.Plain) {s : JsString} (hs : Plain s) :
    join path.text s = slash :: joinSegments (path.map Name.text ++ [s]) := by
  have hsegments : segments (path.text ++ slash :: s) = path.map Name.text ++ [s] := by
    rw [segments_append_slash, segments_text hpath, segments_eq_singleton hs]
  have hplain : ∀ t ∈ segments (path.text ++ slash :: s), t ≠ dot ∧ t ≠ dotDot := by
    intro t ht
    rw [hsegments, List.mem_append, List.mem_singleton] at ht
    obtain ht | rfl := ht
    · exact ⟨(hpath.segment t ht).ne_dot, (hpath.segment t ht).ne_dotDot⟩
    · exact ⟨hs.ne_dot, hs.ne_dotDot⟩
  have habs : isAbsolute (path.text ++ slash :: s) = true := by
    simp [isAbsolute, Path.text]
  have hbody := joinSegments_concat_ne_nil hs.ne_nil (path.map Name.text)
  rw [join, Posix.normalize, if_neg (by simp)]
  simp only [normalizeSegments_eq hplain, hsegments, if_neg hbody, getLast?_ne_slash hs, habs,
    Bool.false_eq_true, if_false, if_true]

/-- The last segment, read backwards before `before`. -/
theorem span_reverse {s : JsString} (hs : Plain s) (before : JsString) :
    ((s.reverse ++ before).dropWhile (· == slash)).takeWhile (· != slash) =
        s.reverse ++ before.takeWhile (· != slash) ∧
      ((s.reverse ++ before).dropWhile (· == slash)).dropWhile (· != slash) =
        before.dropWhile (· != slash) := by
  have hall : ∀ u ∈ s.reverse, (u != slash) = true := by
    intro u hu
    rw [bne_iff_ne]
    exact fun heq => hs.noSlash (heq ▸ List.mem_reverse.mp hu)
  obtain ⟨u, rest, hrev⟩ := List.exists_cons_of_ne_nil (List.reverse_ne_nil_iff.mpr hs.ne_nil)
  have hu : (u == slash) = false := by simpa using hall u (hrev ▸ List.mem_cons_self)
  have hdrop : (s.reverse ++ before).dropWhile (· == slash) = s.reverse ++ before := by
    rw [hrev, List.cons_append, List.dropWhile_cons_of_neg (by simp [hu])]
  rw [hdrop]
  exact ⟨List.takeWhile_append_of_pos hall, List.dropWhile_append_of_pos hall⟩

theorem takeWhile_reverse {s : JsString} (hs : Plain s) (before : JsString)
    (hbefore : before.takeWhile (· != slash) = []) :
    ((s.reverse ++ before).dropWhile (· == slash)).takeWhile (· != slash) = s.reverse := by
  rw [(span_reverse hs before).1, hbefore, List.append_nil]

theorem basename_plain {s : JsString} (hs : Plain s) : basename s = s := by
  have h := takeWhile_reverse hs [] rfl
  rw [List.append_nil] at h
  rw [basename, h, List.reverse_reverse]

theorem basename_append {s : JsString} (hs : Plain s) (p : JsString) :
    basename (p ++ slash :: s) = s := by
  have h := takeWhile_reverse hs (slash :: p.reverse) rfl
  rw [basename, List.reverse_append, List.reverse_cons, List.append_assoc, List.singleton_append,
    h, List.reverse_reverse]

/-- The last segment of a path string. -/
theorem basename_joinSegments {s : JsString} (hs : Plain s) (segs : List JsString) :
    basename (joinSegments (segs ++ [s])) = s := by
  by_cases hsegs : segs = []
  · rw [hsegs, List.nil_append, joinSegments, List.intercalate_singleton, basename_plain hs]
  · rw [joinSegments_concat hsegs, basename_append hs]

/-- A plain name under a path string is its last segment. -/
theorem basename_join {s : JsString} (hs : Plain s) (p : JsString) : basename (join p s) = s := by
  have hsegments : ∀ allowAboveRoot, normalizeSegments allowAboveRoot (p ++ slash :: s)
      = normalizeSegments allowAboveRoot p ++ [s] := by
    intro allowAboveRoot
    have hsplit : (p ++ slash :: s).splitOn slash = p.splitOn slash ++ [s] := by
      rw [List.splitOn_append_cons_self, List.splitOn_eq_singleton hs.noSlash]
    have hpush : ∀ kept, pushSegment allowAboveRoot kept s = s :: kept := by
      intro kept
      unfold pushSegment
      rw [if_neg (not_or.mpr ⟨hs.ne_nil, hs.ne_dot⟩), if_neg hs.ne_dotDot]
    rw [normalizeSegments, hsplit, List.foldl_append, List.foldl_cons, List.foldl_nil, hpush,
      List.reverse_cons, normalizeSegments]
  have hbody : ∀ segs : List JsString, basename (slash :: joinSegments (segs ++ [s])) = s := by
    intro segs
    by_cases hsegs : segs = []
    · rw [hsegs, List.nil_append, joinSegments, List.intercalate_singleton]
      exact basename_append hs []
    · rw [joinSegments_concat hsegs, ← List.cons_append, basename_append hs]
  rw [join, Posix.normalize, if_neg (by simp)]
  simp only [hsegments, if_neg (joinSegments_concat_ne_nil hs.ne_nil _), getLast?_ne_slash hs,
    Bool.false_eq_true, if_false]
  split
  · exact hbody _
  · exact basename_joinSegments hs _

/-! ## Relative paths -/

theorem commonSegments_prefix : ∀ (p q : List JsString), p <+: q → commonSegments p q = p.length
  | [], q, _ => by cases q <;> rfl
  | a :: p, [], h => by simp at h
  | a :: p, b :: q, h => by
      obtain ⟨rfl, hrest⟩ := List.cons_prefix_cons.mp h
      rw [commonSegments, if_pos rfl, commonSegments_prefix p q hrest, List.length_cons]

theorem commonSegments_lt : ∀ (p q : List JsString), ¬ p <+: q → commonSegments p q < p.length
  | [], q, h => absurd List.nil_prefix h
  | a :: p, [], _ => Nat.succ_pos _
  | a :: p, b :: q, h => by
      rw [commonSegments]
      split
      · rename_i hab
        have hrest := commonSegments_lt p q fun hp => h (List.cons_prefix_cons.mpr ⟨hab, hp⟩)
        rw [List.length_cons]
        omega
      · exact Nat.succ_pos _

theorem resolvePending_absolute {p : JsString} (h : isAbsolute p = true) :
    resolvePending [p] = p := by
  have hne : p ≠ [] := by
    intro hnil
    rw [hnil] at h
    exact absurd h (by decide)
  rw [resolvePending, List.foldl_cons, List.foldl_nil, if_neg hne, if_pos h]

section
variable {p q : JsString} (hp : isAbsolute p = true) (hq : isAbsolute q = true)
  (hpp : ∀ s ∈ segments p, Plain s) (hqp : ∀ s ∈ segments q, Plain s)
include hp hq hpp hqp

theorem relative_eq : relative p q =
    joinSegments (List.replicate ((segments p).length - commonSegments (segments p) (segments q))
      dotDot ++ (segments q).drop (commonSegments (segments p) (segments q))) := by
  rw [relative, resolvePending_absolute hp, resolvePending_absolute hq,
    normalizeSegments_eq fun s hs => ⟨(hpp s hs).ne_dot, (hpp s hs).ne_dotDot⟩,
    normalizeSegments_eq fun s hs => ⟨(hqp s hs).ne_dot, (hqp s hs).ne_dotDot⟩]

/-- Below the base: the rest of the segments. -/
theorem relative_of_prefix (h : segments p <+: segments q) :
    relative p q = joinSegments ((segments q).drop (segments p).length) := by
  rw [relative_eq hp hq hpp hqp, commonSegments_prefix _ _ h, Nat.sub_self, List.replicate_zero,
    List.nil_append]

/-- Outside the base: the path starts with `..`. -/
theorem relative_of_not_prefix (h : ¬ segments p <+: segments q) :
    ∃ rest, relative p q = joinSegments (dotDot :: rest) := by
  have hlt := commonSegments_lt _ _ h
  obtain ⟨n, hn⟩ := Nat.exists_eq_succ_of_ne_zero (Nat.sub_ne_zero_of_lt hlt)
  rw [relative_eq hp hq hpp hqp, hn, List.replicate_succ, List.cons_append]
  exact ⟨_, rfl⟩

end

theorem joinSegments_cons (s : JsString) (segs : List JsString) :
    joinSegments (s :: segs) = s ∨ joinSegments (s :: segs) = s ++ slash :: joinSegments segs := by
  unfold joinSegments
  cases segs with
  | nil => exact .inl (by rw [List.intercalate_singleton])
  | cons t segs => exact .inr (by rw [List.intercalate_cons_cons, List.append_assoc]; rfl)

end Benchhand.Posix
