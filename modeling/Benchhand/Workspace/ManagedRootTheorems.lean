/-
Benchhand.Workspace.ManagedRootTheorems — where the managed root will be.

`canonicalizePotentialPath` walks up from the resolved root until `realpath`
finds something, and puts the names it has passed behind that. The first of
these names leads nowhere, so when the directories are made there
(`made_makeDirectoriesFrom`), they are where the lexical path says, and the
root leads to them.
-/
import Benchhand.Filesystem.WorkspaceTheorems
import Benchhand.Workspace.Ground

namespace Benchhand.Workspace

open Text Js Posix Process
open Filesystem (target target_nil components_target plain_target segments_target
  joinSegments_ne_nil)

/-! ## Path strings -/

theorem dirname_target {base : Path} (hbase : base.Plain) {segs : List JsString}
    (h : ∀ t ∈ segs, Plain t) {s : JsString} (hs : Plain s) :
    dirname (target base (segs ++ [s])) = target base segs := by
  have hplain := plain_target hbase h
  rw [target, target, ← List.append_assoc]
  generalize base.map Name.text ++ segs = all at hplain
  by_cases hall : all = []
  · have hspan := (span_reverse hs [slash]).2
    rw [hall, List.nil_append, joinSegments, List.intercalate_singleton, dirname, List.reverse_cons,
      hspan]
    rfl
  · have hne := joinSegments_ne_nil hall hplain
    have hspan := (span_reverse hs (slash :: (slash :: joinSegments all).reverse)).2
    rw [List.dropWhile_cons_of_neg (by simp)] at hspan
    have hreverse : (slash :: joinSegments (all ++ [s])).reverse =
        s.reverse ++ slash :: (slash :: joinSegments all).reverse := by
      rw [joinSegments_concat hall]
      simp
    rw [dirname, hreverse, hspan]
    simp [hne]

theorem basename_target (base : Path) (segs : List JsString) {s : JsString} (hs : Plain s) :
    basename (target base (segs ++ [s])) = s := by
  have hjoin : target base (segs ++ [s]) = slash :: joinSegments (base.map Name.text ++ segs ++ [s])
      := by rw [target, List.append_assoc]
  rw [hjoin]
  by_cases hall : base.map Name.text ++ segs = []
  · rw [hall, List.nil_append, joinSegments, List.intercalate_singleton]
    exact basename_append hs []
  · rw [joinSegments_concat hall, ← List.cons_append, basename_append hs]

theorem joinSegments_cons_of_ne_nil (s : JsString) {segs : List JsString} (h : segs ≠ []) :
    joinSegments (s :: segs) = s ++ slash :: joinSegments segs := by
  obtain ⟨t, rest, rfl⟩ := List.exists_cons_of_ne_nil h
  rw [joinSegments, List.intercalate_cons_cons, List.append_assoc]
  rfl

/-- Names behind a canonical path are joined as they stand. -/
theorem joinAll_text {base : Path} (hbase : base.Plain) {segs : List JsString}
    (h : ∀ t ∈ segs, Plain t) (hne : segs ≠ []) : joinAll base.text segs = target base segs := by
  obtain rfl | ⟨init, s, rfl⟩ := List.eq_nil_or_concat' segs
  · exact absurd rfl hne
  have hs : Plain s := h s (by simp)
  have hplain := plain_target hbase h
  have hlast : joinSegments (base.text :: (init ++ [s])) =
      joinSegments (base.text :: init) ++ slash :: s := by
    rw [← List.cons_append, joinSegments_concat (List.cons_ne_nil _ _)]
  have hfirst := joinSegments_cons_of_ne_nil base.text hne
  have hsegments : segments (joinSegments (base.text :: (init ++ [s]))) =
      base.map Name.text ++ (init ++ [s]) := by
    rw [hfirst, segments_append_slash, segments_text hbase]
    exact congrArg _ (segments_joinSegments fun t ht => ⟨(h t ht).ne_nil, (h t ht).noSlash⟩)
  have hkept : ∀ t ∈ segments (joinSegments (base.text :: (init ++ [s]))), t ≠ dot ∧ t ≠ dotDot := by
    intro t ht
    have ht := hplain t (hsegments ▸ ht)
    exact ⟨ht.ne_dot, ht.ne_dotDot⟩
  have hbody : joinSegments (base.map Name.text ++ (init ++ [s])) ≠ [] :=
    joinSegments_ne_nil (by simp) hplain
  have htrailing := getLast?_ne_slash hs (joinSegments (base.text :: init))
  rw [← hlast] at htrailing
  have habs : isAbsolute (joinSegments (base.text :: (init ++ [s]))) = true := by
    rw [hfirst]
    rfl
  rw [joinAll, Posix.normalize, if_neg (by rw [hfirst]; simp)]
  simp only [normalizeSegments_eq hkept, hsegments, if_neg hbody, htrailing, habs,
    Bool.false_eq_true, if_false, if_true, target]

/-- One more name is joined as it stands. -/
theorem join_target {base : Path} (hbase : base.Plain) {segs : List JsString}
    (h : ∀ t ∈ segs, Plain t) {s : JsString} (hs : Plain s) :
    join (target base segs) s = target base (segs ++ [s]) := by
  have hall : ∀ t ∈ segs ++ [s], Plain t := fun t ht =>
    (List.mem_append.mp ht).elim (h t) fun ht => List.mem_singleton.mp ht ▸ hs
  have hplain := plain_target hbase hall
  have hsegments : segments (target base segs ++ slash :: s) =
      base.map Name.text ++ (segs ++ [s]) := by
    rw [segments_append_slash, segments_target hbase h, segments_eq_singleton hs,
      List.append_assoc]
  have hkept : ∀ t ∈ segments (target base segs ++ slash :: s), t ≠ dot ∧ t ≠ dotDot := by
    intro t ht
    have ht := hplain t (hsegments ▸ ht)
    exact ⟨ht.ne_dot, ht.ne_dotDot⟩
  have habs : isAbsolute (target base segs ++ slash :: s) = true := by
    rw [target]
    rfl
  have hbody := joinSegments_ne_nil (by simp) hplain
  rw [join, Posix.normalize, if_neg (by simp)]
  simp only [normalizeSegments_eq hkept, hsegments, if_neg hbody, getLast?_ne_slash hs, habs,
    Bool.false_eq_true, if_false, if_true]
  rfl

/-- A segment that is kept is one of the path. -/
theorem mem_normalizeSegments {p s : JsString} (h : s ∈ normalizeSegments false p) :
    s ∈ p.splitOn slash ∧ Plain s := by
  have hpush : ∀ (segs kept : List JsString), (∀ t ∈ kept, Plain t) → (∀ t ∈ segs, slash ∉ t) →
      ∀ t ∈ segs.foldl (pushSegment false) kept, (t ∈ kept ∨ t ∈ segs) ∧ Plain t := by
    intro segs
    induction segs with
    | nil => exact fun kept hkept _ t ht => ⟨.inl ht, hkept t ht⟩
    | cons segment segs ih =>
        intro kept hkept hslash t ht
        rw [List.foldl_cons] at ht
        have hslash' : ∀ u ∈ segs, slash ∉ u := fun u hu => hslash u (List.mem_cons_of_mem _ hu)
        have hnext : ∀ u ∈ pushSegment false kept segment,
            (u ∈ kept ∨ u = segment) ∧ Plain u := by
          intro u hu
          unfold pushSegment at hu
          split at hu
          · exact ⟨.inl hu, hkept u hu⟩
          · rename_i hne
            split at hu
            · split at hu
              · simp at hu
              · split at hu
                · exact ⟨.inl hu, hkept u hu⟩
                · exact ⟨.inl (List.mem_cons_of_mem _ hu), hkept u (List.mem_cons_of_mem _ hu)⟩
            · rename_i hdots
              obtain rfl | hu := List.mem_cons.mp hu
              · exact ⟨.inr rfl, fun h => hne (.inl h), fun h => hne (.inr h), hdots,
                  hslash _ List.mem_cons_self⟩
              · exact ⟨.inl hu, hkept u hu⟩
        obtain ⟨hmem, hplain⟩ := ih _ (fun u hu => (hnext u hu).2) hslash' t ht
        refine ⟨?_, hplain⟩
        obtain hmem | hmem := hmem
        · refine (hnext t hmem).1.imp id ?_
          rintro rfl
          exact List.mem_cons_self
        · exact .inr (List.mem_cons_of_mem _ hmem)
  obtain ⟨hmem, hplain⟩ := hpush (p.splitOn slash) [] (by simp)
    (fun t ht => not_mem_of_mem_splitOn _ ht) s (List.mem_reverse.mp h)
  exact ⟨hmem.resolve_left List.not_mem_nil, hplain⟩

/-! ## Encoded path strings -/

theorem toWellFormed_append_slash (a b : JsString) :
    toWellFormed (a ++ slash :: b) = toWellFormed a ++ slash :: toWellFormed b := by
  rw [toWellFormed, scalars_append_slash, List.flatMap_append, List.flatMap_cons]
  rfl

theorem toWellFormed_joinSegments (segs : List JsString) :
    toWellFormed (joinSegments segs) = joinSegments (segs.map toWellFormed) := by
  induction segs with
  | nil => rfl
  | cons s segs ih =>
      by_cases hsegs : segs = []
      · rw [hsegs]
        simp [joinSegments]
      · rw [joinSegments_cons_of_ne_nil s hsegs, toWellFormed_append_slash, ih, List.map_cons,
          joinSegments_cons_of_ne_nil _ (by simpa using hsegs)]

/-- The text of a place below a canonical path is the encoded path string. -/
theorem text_below (base : Path) (segs : List JsString) :
    Path.text (base ++ segs.map scalars) = toWellFormed (target base segs) := by
  have hslash : ∀ p, toWellFormed (slash :: p) = slash :: toWellFormed p := fun p =>
    toWellFormed_append_slash [] p
  rw [target, hslash, toWellFormed_joinSegments, Path.text, List.map_append, List.map_append,
    List.map_map, List.map_map]
  congr 3
  exact List.map_congr_left fun name _ => (toWellFormed_of_wellFormed
    (wellFormed_flatMap_units name)).symm

theorem wellFormed_append_slash {a b : JsString} :
    WellFormed (a ++ slash :: b) ↔ WellFormed a ∧ WellFormed b := by
  have hmeet : ¬ (endsHigh a = true ∧ startsLow (slash :: b) = true) := by
    rw [startsLow_cons]
    exact fun h => absurd h.2 (by decide)
  have hpair : ¬ (isHigh slash = true ∧ startsLow b = true) := fun h => absurd h.1 (by decide)
  rw [WellFormed, codePoints_append hmeet, codePoints_cons_of_not_pair hpair,
    List.forall_mem_append, List.forall_mem_cons]
  exact and_congr_right fun _ => and_iff_right (by decide)

theorem wellFormed_joinSegments {segs : List JsString} :
    WellFormed (joinSegments segs) ↔ ∀ s ∈ segs, WellFormed s := by
  induction segs with
  | nil => exact iff_of_true wellFormed_nil (by simp)
  | cons s segs ih =>
      by_cases hsegs : segs = []
      · rw [hsegs]
        simp [joinSegments]
      · rw [joinSegments_cons_of_ne_nil s hsegs, wellFormed_append_slash, ih, List.forall_mem_cons]

theorem wellFormed_of_mem_splitOn {p s : JsString} (hp : WellFormed p) (hs : s ∈ p.splitOn slash) :
    WellFormed s := by
  have hjoin : joinSegments (p.splitOn slash) = p := List.intercalate_splitOn slash
  exact wellFormed_joinSegments.mp (hjoin.symm ▸ hp) s hs

theorem wellFormed_target (base : Path) {segs : List JsString} (h : ∀ s ∈ segs, WellFormed s) :
    WellFormed (target base segs) := by
  have hslash : WellFormed ([] ++ slash :: joinSegments (base.map Name.text ++ segs)) := by
    refine wellFormed_append_slash.mpr ⟨wellFormed_nil, wellFormed_joinSegments.mpr ?_⟩
    refine List.forall_mem_append.mpr ⟨fun s hs => ?_, h⟩
    obtain ⟨name, -, rfl⟩ := List.mem_map.mp hs
    exact wellFormed_flatMap_units name
  exact hslash

/-- What a path string is resolved to. -/
theorem resolve_eq_target (cwd path : JsString) : ∃ segs : List JsString,
    resolve [cwd, path] = target [] segs ∧ (∀ s ∈ segs, Plain s) ∧
      (WellFormed cwd → WellFormed path → ∀ s ∈ segs, WellFormed s) := by
  refine ⟨normalizeSegments false (resolvePending [cwd, path]), rfl,
    fun s hs => (mem_normalizeSegments hs).2, fun hcwd hpath s hs => ?_⟩
  refine wellFormed_of_mem_splitOn ?_ (mem_normalizeSegments hs).1
  have hcons : ∀ {p : JsString}, WellFormed p → WellFormed ([] ++ slash :: p) := fun hp =>
    wellFormed_append_slash.mpr ⟨wellFormed_nil, hp⟩
  have hfirst : WellFormed (resolvePending [cwd]) := by
    rw [resolvePending, List.foldl_cons, List.foldl_nil]
    split
    · exact wellFormed_nil
    · split
      · exact hcwd
      · exact hcons hcwd
  have hstep : resolvePending [cwd, path] = if path = [] then resolvePending [cwd]
      else if isAbsolute path then path else resolvePending [cwd] ++ slash :: path := rfl
  rw [hstep]
  split
  · exact hfirst
  · split
    · exact hpath
    · exact wellFormed_append_slash.mpr ⟨hfirst, hpath⟩

/-! ## Directories below a canonical path -/

section
variable {v : Volume} {dir : Path}

/-- The first name of the missing ones. -/
def LeadsNowhere (v : Volume) (dir : Path) (segs : List JsString) : Prop :=
  ∀ s ∈ segs.head?, v.Nowhere dir (scalars s)

theorem made_directly (hdir : v.Stands dir) {segs : List JsString} (hne : segs ≠ [])
    (hplain : ∀ s ∈ segs, Plain s) (hnowhere : LeadsNowhere v dir segs) {u : Unit} {v' : Volume}
    (h : v.makeDirectory (target dir segs) = (.ok u, v')) : v.Made v' dir (segs.map scalars) := by
  obtain ⟨first, rest, rfl⟩ := List.exists_cons_of_ne_nil hne
  obtain ⟨hrest, hmade⟩ := Volume.made_makeDirectory hdir
    (hplain first List.mem_cons_self).name (hnowhere first rfl)
    (components_target hdir.plain hplain) h
  obtain rfl := List.map_eq_nil_iff.mp hrest
  exact hmade

/-- Below a name that leads nowhere is nothing. -/
theorem free_below (hv : v.Rooted) {segs : List JsString} (hne : segs ≠ [])
    (hplain : ∀ s ∈ segs, Plain s) (hshort : ∀ s ∈ segs, Name.size (scalars s) ≤ nameMax)
    (hnowhere : LeadsNowhere v dir segs) {path : Path} (hstarts : dir ++ segs.map scalars <+: path)
    (hpath : dir ++ segs.map scalars ≠ path) : v.node? path = none := by
  obtain ⟨first, rest, rfl⟩ := List.exists_cons_of_ne_nil hne
  have hname := (hplain first List.mem_cons_self).name
  have hbefore : dir ++ [scalars first] <+: dir ++ (first :: rest).map scalars :=
    ⟨rest.map scalars, by simp⟩
  rw [Option.eq_none_iff_forall_ne_some]
  intro node hnode
  have hlength : (dir ++ [scalars first]).length < path.length := by
    have hlt := lt_of_le_of_ne hstarts.length_le fun heq => hpath (hstarts.eq_of_length heq)
    exact lt_of_le_of_lt hbefore.length_le hlt
  have hdirectory := hv.directory (hbefore.trans hstarts)
    (fun heq => absurd (congrArg List.length heq) (Nat.ne_of_lt hlength)) (by rw [hnode]; rfl)
  have hwalk : v.walk true linkMax dir [scalars first] = .ok (dir ++ [scalars first]) :=
    Volume.steps_directory hname.ne_dotDot (hshort first List.mem_cons_self) hdirectory []
  exact (hnowhere first rfl).not_directory hwalk hdirectory

/-- One more directory is made below those that were missing. -/
theorem made_next (hv : v.Rooted) {init : List JsString} (hne : init ≠ [])
    (hinit : ∀ t ∈ init, Plain t) {s : JsString} (hs : Plain s)
    (hnowhere : LeadsNowhere v dir init) {w v' : Volume} (hmade : v.Made w dir (init.map scalars))
    (hdir : dir.Plain) {u : PUnit}
    (h : w.makeDirectory (target dir (init ++ [s])) = (.ok u, v')) :
    v.Made v' dir ((init ++ [s]).map scalars) := by
  have hplain : ∀ t ∈ init ++ [s], Plain t := fun t ht =>
    (List.mem_append.mp ht).elim (hinit t) fun ht => List.mem_singleton.mp ht ▸ hs
  have hshort : ∀ t ∈ init, Name.size (scalars t) ≤ nameMax := fun t ht =>
    hmade.stands.short _ (List.mem_append_right _ (List.mem_map_of_mem ht))
  have hlonger : ¬ dir ++ init.map scalars ++ [scalars s] <+: dir ++ init.map scalars := fun hp =>
    absurd hp.length_le (by simp)
  have hfree : w.node? (dir ++ init.map scalars ++ [scalars s]) = none := by
    rw [hmade.frame _ hlonger]
    exact free_below hv hne hinit hshort hnowhere (List.prefix_append _ _) (by simp)
  have hcomponents : components (scalars (target dir (init ++ [s]))) =
      dir ++ init.map scalars ++ [scalars s] := by
    rw [components_target hdir hplain]
    simp
  obtain ⟨-, hlast⟩ := Volume.made_makeDirectory hmade.stands hs.name
    (Volume.nowhere_of_free hs.name.ne_dotDot hfree) hcomponents h
  rw [List.map_append]
  exact hmade.trans hlast

/-- Directories are made at missing names, and nowhere else. -/
theorem made_makeDirectoriesFrom (hv : v.Rooted) (hdir : v.Stands dir) (segs : List JsString)
    (hne : segs ≠ []) (hplain : ∀ s ∈ segs, Plain s) (hnowhere : LeadsNowhere v dir segs) :
    ∀ (fuel : Nat) {u : Unit} {v' : Volume},
      Volume.makeDirectoriesFrom fuel v (target dir segs) = (.ok u, v') →
        v.Made v' dir (segs.map scalars) := by
  induction segs using List.reverseRecOn with
  | nil => exact absurd rfl hne
  | append_singleton init s ih =>
      have hinit : ∀ t ∈ init, Plain t := fun t ht => hplain t (List.mem_append_left _ ht)
      have hs : Plain s := hplain s (by simp)
      intro fuel u v' h
      cases fuel with
      | zero => exact made_directly hdir hne hplain hnowhere h
      | succ fuel =>
          rw [Volume.makeDirectoriesFrom, dirname_target hdir.plain hinit hs] at h
          split at h
          · split at h
            · cases h
            cases hbefore : Volume.makeDirectoriesFrom fuel v (target dir init) with
            | mk outcome w =>
                rw [hbefore] at h
                cases outcome with
                | error r => cases h
                | ok _ =>
                    by_cases hnil : init = []
                    · subst hnil
                      rw [target_nil] at hbefore
                      obtain ⟨rfl, -⟩ := Volume.makeDirectoriesFrom_found (hdir.lands true)
                        (by rw [hdir.node]; rfl) fuel hbefore
                      exact made_directly hdir hne hplain hnowhere h
                    · have hnowhere' : LeadsNowhere v dir init := fun t ht =>
                        hnowhere t (by rwa [List.head?_append_of_ne_nil _ hnil])
                      exact made_next hv hnil hinit hs hnowhere' (ih hnil hinit hnowhere' fuel hbefore)
                        hdir.plain h
          · exact made_directly hdir hne hplain hnowhere h

end

/-! ## The walk up from a path -/

/-- Where `p` comes from: the first names lead to a place, and the others,
which are put behind it, are missing. -/
structure Potential (v : Volume) (segs : List JsString) (p : JsString) (before after : List JsString)
    (place : Path) : Prop where
  segs_eq : segs = before ++ after
  located : v.locate true (target [] before) = .ok place
  found : (v.node? place).isSome
  path : p = target place after
  missing : after ≠ [] → v.Stands place ∧ LeadsNowhere v place after

section
variable {s : Surroundings} {v : Volume} {added : List (LockedWorktree × Volume)}

theorem plain_nil : Path.Plain [] := fun _ h => absurd h List.not_mem_nil

theorem canonicalizeFrom_eq (fuel : Nat) (cursor : JsString) (suffix : List JsString) :
    canonicalizeFrom fuel cursor suffix =
      tryCatch (do
        let canonicalExisting ← realpath cursor
        if suffix = [] then return canonicalExisting else return joinAll canonicalExisting suffix)
        fun e =>
          if !hasErrnoCode e "ENOENT" || dirname cursor == cursor then throw e
          else
            match fuel with
            | 0 => throw e
            | fuel + 1 => canonicalizeFrom fuel (dirname cursor) (basename cursor :: suffix) := by
  cases fuel <;> rw [canonicalizeFrom]

theorem dirname_root : (dirname (target [] []) == target [] []) = true := by decide

/-- The last name is taken off before the others, as long as `fuel` lasts; it
lasts to the root. -/
theorem canonicalizeFrom_fuel (before : List JsString) (hbefore : ∀ t ∈ before, Plain t) :
    ∀ (fuel more : Nat) (after : List JsString), before.length ≤ fuel → before.length ≤ more →
      canonicalizeFrom fuel (target [] before) after =
        canonicalizeFrom more (target [] before) after := by
  induction before using List.reverseRecOn with
  | nil =>
      intro fuel more after _ _
      rw [canonicalizeFrom_eq fuel, canonicalizeFrom_eq more, dirname_root]
      simp only [Bool.or_true, if_true]
  | append_singleton init last ih =>
      intro fuel more after hfuel hmore
      have hinit : ∀ t ∈ init, Plain t := fun t ht => hbefore t (List.mem_append_left _ ht)
      rw [List.length_append, List.length_singleton] at hfuel hmore
      obtain ⟨fuel, rfl⟩ := Nat.exists_eq_succ_of_ne_zero (show fuel ≠ 0 by omega)
      obtain ⟨more, rfl⟩ := Nat.exists_eq_succ_of_ne_zero (show more ≠ 0 by omega)
      rw [canonicalizeFrom_eq, canonicalizeFrom_eq (more + 1),
        dirname_target plain_nil hinit (hbefore last (by simp))]
      simp only [ih hinit fuel more _ (by omega) (by omega)]

/-- What `realpath` finds is put before the names that were missing. -/
theorem stays_found (hs : s.Lawful) {before after : List JsString}
    (hbefore : ∀ t ∈ before, Plain t) (hafter : ∀ t ∈ after, Plain t)
    (hmissing : ∀ t ∈ after.head?, v.Missing (target [] (before ++ [t]))) :
    Stays s (do
        let canonicalExisting ← realpath (target [] before)
        if after = [] then return canonicalExisting else return joinAll canonicalExisting after)
      (fun p => ∃ first rest place, Potential v (before ++ after) p first rest place)
      (fun e => hasErrnoCode e "ENOENT" = true → v.Missing (target [] before)) v added := by
  refine stays_bind (stays_realpath hs _) fun canonical => ?_
  rintro ⟨place, node, hlocate, hnode, rfl⟩
  have hlands := Volume.lands_of_locate hlocate
  have hpotential {p : JsString} (hp : p = target place after) :
      Potential v (before ++ after) p before after place := by
    refine ⟨rfl, hlocate, by rw [hnode]; rfl, hp, fun hne => ?_⟩
    obtain ⟨t, rest, rfl⟩ := List.exists_cons_of_ne_nil hne
    have hnames : components (scalars (target [] (before ++ [t]))) =
        components (scalars (target [] before)) ++ [scalars t] := by
      rw [components_target plain_nil hbefore, components_target plain_nil fun u hu =>
        (List.mem_append.mp hu).elim (hbefore u) fun hu =>
          List.mem_singleton.mp hu ▸ hafter t List.mem_cons_self]
      simp
    obtain ⟨rfl, hnowhere⟩ := Volume.nowhere_of_missing hnode hlocate hnames (hmissing t rfl)
    refine ⟨⟨hlands.toReached, hnode⟩, fun u hu => ?_⟩
    obtain rfl := Option.some.inj hu
    exact hnowhere
  split
  · rename_i hnil
    exact stays_pure ⟨before, after, place, hpotential (by rw [hnil, target_nil])⟩
  · rename_i hne
    exact stays_pure ⟨before, after, place, hpotential (joinAll_text hlands.plain hafter hne)⟩

/-- The walk up from names that are all plain. -/
theorem stays_canonicalizeFrom (hs : s.Lawful) (before : List JsString)
    (hbefore : ∀ t ∈ before, Plain t) :
    ∀ (fuel : Nat) (after : List JsString), (∀ t ∈ after, Plain t) →
      (∀ t ∈ after.head?, v.Missing (target [] (before ++ [t]))) →
      Stays s (canonicalizeFrom fuel (target [] before) after)
        (fun p => ∃ first rest place, Potential v (before ++ after) p first rest place)
        (fun _ => True) v added := by
  induction before using List.reverseRecOn with
  | nil =>
      intro fuel after hafter hmissing
      rw [canonicalizeFrom_eq, dirname_root]
      refine stays_tryCatch (stays_found hs hbefore hafter hmissing) fun e _ => ?_
      rw [Bool.or_true, if_pos rfl]
      exact stays_throw trivial
  | append_singleton init last ih =>
      intro fuel after hafter hmissing
      have hinit : ∀ t ∈ init, Plain t := fun t ht => hbefore t (List.mem_append_left _ ht)
      have hlast : Plain last := hbefore last (by simp)
      rw [canonicalizeFrom_eq]
      refine stays_tryCatch (stays_found hs hbefore hafter hmissing) fun e he => ?_
      split
      · exact stays_throw trivial
      · rename_i hcode
        have hgone : v.Missing (target [] (init ++ [last])) := he (by
          cases h : hasErrnoCode e "ENOENT" with
          | true => rfl
          | false => simp [h] at hcode)
        rw [dirname_target plain_nil hinit hlast, basename_target [] init hlast]
        cases fuel with
        | zero => exact stays_throw trivial
        | succ fuel =>
            have hrest := ih hinit fuel (last :: after)
              (List.forall_mem_cons.mpr ⟨hlast, hafter⟩) fun t ht => by
                obtain rfl := Option.some.inj ht
                exact hgone
            rw [List.append_assoc, List.singleton_append]
            exact hrest

end

/-! ## The root once it is made -/

section
variable {v : Volume} {segs : List JsString} {p : JsString} {first rest : List JsString}
  {place : Path}

theorem Potential.stands (h : Potential v segs p first rest place)
    (hdirectory : v.node? place = some .directory) : v.Stands place :=
  ⟨(Volume.lands_of_locate h.located).toReached, hdirectory⟩

/-- What is made is behind the place. -/
theorem Potential.made (h : Potential v segs p first rest place) (hv : v.Rooted)
    (hplain : ∀ t ∈ segs, Plain t) {v' : Volume} (hmake : v.makeDirectories p = (.ok (), v')) :
    v.node? place = some .directory ∧ v.Made v' place (rest.map scalars) := by
  have hrest : ∀ t ∈ rest, Plain t := fun t ht =>
    hplain t (h.segs_eq ▸ List.mem_append_right _ ht)
  by_cases hnil : rest = []
  · subst hnil
    rw [Volume.makeDirectories, h.path, target_nil] at hmake
    obtain ⟨rfl, hdirectory⟩ := Volume.makeDirectoriesFrom_found
      (Volume.lands_of_locate h.located) h.found _ hmake
    refine ⟨hdirectory, ?_, fun _ _ => rfl, .refl _⟩
    rw [List.map_nil, List.append_nil]
    exact h.stands hdirectory
  · obtain ⟨hstands, hnowhere⟩ := h.missing hnil
    rw [Volume.makeDirectories, h.path] at hmake
    exact ⟨hstands.node, made_makeDirectoriesFrom hv hstands rest hnil hrest hnowhere _ hmake⟩

/-- Both paths lead to it. -/
theorem Potential.located_made (h : Potential v segs p first rest place)
    (hplain : ∀ t ∈ segs, Plain t) {v' : Volume} (hdirectory : v.node? place = some .directory)
    (hmade : v.Made v' place (rest.map scalars)) :
    v'.locate true p = .ok (place ++ rest.map scalars) ∧
      v'.locate true (target [] segs) = .ok (place ++ rest.map scalars) := by
  have hrest : ∀ t ∈ rest, Plain t := fun t ht =>
    hplain t (h.segs_eq ▸ List.mem_append_right _ ht)
  have hfirst : ∀ t ∈ first, Plain t := fun t ht =>
    hplain t (h.segs_eq ▸ List.mem_append_left _ ht)
  have hlands := hmade.stands.lands true
  constructor
  · rw [h.path, Volume.locate, components_target (h.stands hdirectory).plain hrest]
    exact Volume.walk_lands linkMax hlands
  · have hlocated := h.located
    rw [Volume.locate, components_target plain_nil hfirst] at hlocated
    rw [Volume.locate, components_target plain_nil hplain, h.segs_eq, List.map_append,
      List.nil_append]
    exact Volume.walk_append hmade.keeps hdirectory (fun _ => rfl) hlands linkMax _ hlocated

theorem realpathOf_ok {path : JsString} {text : JsString} : realpathOf v path = .ok text ↔
    ∃ place node, v.locate true path = .ok place ∧ v.node? place = some node ∧
      place.text = text :=
  Volume.lookup_map "realpath" fun found => Path.text found.1

theorem Potential.realpath (h : Potential v segs p first rest place) (hv : v.Rooted)
    (hplain : ∀ t ∈ segs, Plain t) {v' : Volume} (hmake : v.makeDirectories p = (.ok (), v')) :
    realpathOf v' p = .ok (toWellFormed p) ∧
      realpathOf v' (target [] segs) = .ok (toWellFormed p) := by
  obtain ⟨hdirectory, hmade⟩ := h.made hv hplain hmake
  obtain ⟨hp, hsegs⟩ := h.located_made hplain hdirectory hmade
  have htext : Path.text (place ++ rest.map scalars) = toWellFormed p := by
    rw [text_below, h.path]
  exact ⟨realpathOf_ok.mpr ⟨_, _, hp, hmade.stands.node, htext⟩,
    realpathOf_ok.mpr ⟨_, _, hsegs, hmade.stands.node, htext⟩⟩

end

theorem length_joinSegments {segs : List JsString} (h : ∀ t ∈ segs, Plain t) :
    segs.length ≤ (joinSegments segs).length := by
  induction segs with
  | nil => exact Nat.zero_le _
  | cons t segs ih =>
      have ht := List.length_pos_iff.mpr (h t List.mem_cons_self).ne_nil
      by_cases hsegs : segs = []
      · rw [hsegs, joinSegments, List.intercalate_singleton]
        exact ht
      · have hle := ih fun u hu => h u (List.mem_cons_of_mem _ hu)
        rw [joinSegments_cons_of_ne_nil t hsegs, List.length_append, List.length_cons,
          List.length_cons]
        omega

/-- The walk up ends at the root of the file system at the latest. -/
theorem canonicalizePotentialPath_fuel (cwd root : JsString) {fuel : Nat}
    (hfuel : (resolve [cwd, root]).length ≤ fuel) :
    canonicalizeFrom fuel (resolve [cwd, root]) [] = canonicalizePotentialPath cwd root := by
  obtain ⟨segs, heq, hplain, -⟩ := resolve_eq_target cwd root
  have hlength : segs.length ≤ (resolve [cwd, root]).length := by
    rw [heq, target, List.map_nil, List.nil_append, List.length_cons]
    exact Nat.le_succ_of_le (length_joinSegments hplain)
  rw [canonicalizePotentialPath]
  rw [heq] at hlength hfuel ⊢
  exact canonicalizeFrom_fuel segs hplain _ _ [] (by omega) (by omega)

end Benchhand.Workspace
