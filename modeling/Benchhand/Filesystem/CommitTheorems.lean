/-
Benchhand.Filesystem.CommitTheorems — writes and patches commit or change nothing.

The calls of every mutation follow the protocol, whatever other processes do
and whatever fails (`follows_mutation`), and the protocol is all or nothing
(`all_or_nothing`).
-/
import Benchhand.Filesystem.Commit
import Benchhand.Filesystem.PathsTheorems

namespace Benchhand.Posix

open Text

/-! ## Changed objects -/

namespace Volume

variable {v : Volume}

theorem node?_edit {handle : Handle} {f : Bytes → Mode → Node} {q : Path} (hq : q ≠ handle.path) :
    (v.edit handle f).node? q = v.node? q := by
  unfold edit
  split
  · rename_i bytes mode hnode
    have hne : handle.path ≠ [] := ne_nil_of_node? (v := v) (by simp [hnode])
    rw [node?_put hne, if_neg hq]
  · rfl

theorem node?_edit_self {handle : Handle} {f : Bytes → Mode → Node} {bytes : Bytes} {mode : Mode}
    (hnode : v.node? handle.path = some (.file bytes mode)) :
    (v.edit handle f).node? handle.path = some (f bytes mode) := by
  have hne : handle.path ≠ [] := ne_nil_of_node? (v := v) (by simp [hnode])
  unfold edit
  rw [hnode]
  dsimp only
  rw [node?_put hne, if_pos rfl]

/-- A way stays where a file is changed. -/
theorem keepsWays_of_file {v' : Volume} {place : Path}
    (hframe : ∀ q, q ≠ place → v'.node? q = v.node? q)
    (hplace : v.node? place = none ∨ ∃ bytes mode, v.node? place = some (.file bytes mode)) :
    v.KeepsWays v' where
  directory path hnode := by
    rw [hframe path ?_, hnode]
    rintro rfl
    obtain hnone | ⟨_, _, hfile⟩ := hplace
    · rw [hnone] at hnode
      cases hnode
    · rw [hfile] at hnode
      cases hnode
  symlink path target hnode := by
    rw [hframe path ?_, hnode]
    rintro rfl
    obtain hnone | ⟨_, _, hfile⟩ := hplace
    · rw [hnone] at hnode
      cases hnode
    · rw [hfile] at hnode
      cases hnode

end Volume

section
variable {v v' : Volume} {old new p : JsString}

/-- What a link does that succeeds. -/
theorem perform_link {a : PUnit} (h : perform (.link old new) v = (.ok a, v')) :
    ∃ place source node, v.locate false new = .ok place ∧ v.node? place = none ∧
      v.locate false old = .ok source ∧ v.node? source = some node ∧ v' = v.put place node := by
  simp only [perform, Volume.link] at h
  split at h
  · cases h
  rename_i place hlocate
  split at h
  · cases h
  rename_i hfree
  split at h
  · cases h
  · cases h
  · rename_i found hlookup
    obtain ⟨hsource, hnode⟩ := Volume.lookup_ok.mp hlookup
    refine ⟨place, _, _, hlocate, ?_, hsource, hnode, (congrArg Prod.snd h).symm⟩
    simpa using hfree

/-- What a rename does that succeeds. -/
theorem perform_rename {a : PUnit} (h : perform (.rename old new) v = (.ok a, v')) :
    ∃ place source node, v.locate false new = .ok place ∧ v.node? place ≠ some .directory ∧
      v.locate false old = .ok source ∧ v.node? source = some node ∧ node ≠ .directory ∧
      v' = (v.erase source).put place node := by
  simp only [perform, Volume.rename] at h
  split at h
  · cases h
  · cases h
  · rename_i source node hdirectory hlookup
    split at h
    · cases h
    rename_i place hlocate
    split at h
    · cases h
    rename_i hplace
    obtain ⟨hsource, hnode⟩ := Volume.lookup_ok.mp hlookup
    refine ⟨place, source, node, hlocate, hplace, hsource, hnode, ?_, (congrArg Prod.snd h).symm⟩
    rintro rfl
    exact hdirectory rfl

/-- What a removal does that succeeds. -/
theorem perform_rm {a : PUnit} (h : perform (.rm p) v = (.ok a, v')) :
    v' = v ∨ ∃ place, v.locate false p = .ok place ∧ v' = v.erase place := by
  simp only [perform, Volume.rm] at h
  split at h
  · exact .inl (congrArg Prod.snd h).symm
  · cases h
  · rename_i place hlocate
    split at h
    · exact .inl (congrArg Prod.snd h).symm
    · cases h
    · exact .inr ⟨place, hlocate, (congrArg Prod.snd h).symm⟩

end

end Benchhand.Posix

namespace Benchhand.Filesystem

open Text Posix Process

/-! ## Events of the protocol -/

/-- The last name of a path string. -/
def EndsWith (p : JsString) (name : Name) : Prop :=
  ∃ names, components (scalars p) = names ++ [name] ∧ name ≠ parentName

theorem EndsWith.getLast? {p : JsString} {name : Name} (h : EndsWith p name) {v : Volume}
    {place : Path} (hplace : v.locate false p = .ok place) : place.getLast? = some name := by
  obtain ⟨names, hp, hname⟩ := h
  exact Volume.locate_getLast hp hname hplace

section
variable {target temp : JsString} {turn : Turn} {v : Volume} {e : Event}

theorem not_commits_of_readOnly (hcall : ReadOnly e.call) : ¬ Commits target temp e := by
  rintro ⟨-, h | h⟩ <;> rw [h] at hcall <;> exact hcall

theorem not_creates_of_readOnly {place : Path} (hcall : ReadOnly e.call) :
    ¬ Creates temp place e := by
  rintro ⟨-, ⟨mode, h⟩, -⟩
  rw [h] at hcall
  exact hcall

/-- What an edit does to the file at its place. -/
theorem Took.edits {place : Path} (h : Took turn v e) (hcall : Edits place e.call) :
    (∀ q, q ≠ place → e.after.node? q = e.before.node? q) ∧
    ∀ bytes mode, e.before.node? place = some (.file bytes mode) →
      ∃ bytes' mode', e.after.node? place = some (.file bytes' mode') := by
  have hedit {handle : Handle} {f : Bytes → Mode → Node} (hpath : handle.path = place)
      (hf : ∀ bytes mode, ∃ bytes' mode', f bytes mode = .file bytes' mode')
      (hafter : e.after = e.before.edit handle f) :
      (∀ q, q ≠ place → e.after.node? q = e.before.node? q) ∧
      ∀ bytes mode, e.before.node? place = some (.file bytes mode) →
        ∃ bytes' mode', e.after.node? place = some (.file bytes' mode') := by
    rw [hafter]
    refine ⟨fun q hq => Volume.node?_edit (hpath ▸ hq), fun bytes mode hnode => ?_⟩
    obtain ⟨bytes', mode', hfile⟩ := hf bytes mode
    exact ⟨bytes', mode', hpath ▸ hfile ▸ Volume.node?_edit_self (hpath ▸ hnode)⟩
  have hkept (hafter : e.after = e.before) :
      (∀ q, q ≠ place → e.after.node? q = e.before.node? q) ∧
      ∀ bytes mode, e.before.node? place = some (.file bytes mode) →
        ∃ bytes' mode', e.after.node? place = some (.file bytes' mode') :=
    hafter ▸ ⟨fun _ _ => rfl, fun bytes mode hnode => ⟨bytes, mode, hnode⟩⟩
  generalize hc : e.call = c at hcall
  obtain ⟨-, -, hafter⟩ | ⟨fault, -, -, hafter⟩ := h.outcome
  · rw [hc] at hafter
    cases hcall with
    | chmod hpath mode => exact hedit hpath (fun bytes _ => ⟨bytes, mode, rfl⟩) hafter
    | writeFile hpath content => exact hedit hpath (fun _ mode => ⟨content, mode, rfl⟩) hafter
  · rw [hc] at hafter
    cases hcall with
    | chmod hpath mode => exact hkept hafter
    | writeFile hpath content => exact hedit hpath (fun _ mode => ⟨_, mode, rfl⟩) hafter

theorem Took.refused (h : Took turn v e) (hcall : Refusable target temp e.call)
    (hok : e.ok = false) : e.after = e.before := by
  refine h.unchanged hok fun handle content heq => ?_
  rw [heq] at hcall
  cases hcall

/-- What the creation of the staged file does. -/
theorem Took.creates (h : Took turn v e) {mode : Mode} (hcall : e.call = .openExclusive temp mode)
    (hok : e.ok = true) {place : Path} (hplace : e.before.locate false temp = .ok place) :
    Staged e.before e.after place [] := by
  obtain ⟨handle, hperform⟩ := h.performed hok
  revert handle
  rw [hcall]
  intro handle hperform
  obtain ⟨hlocate, hstaged⟩ := perform_openExclusive hperform
  rw [hplace] at hlocate
  exact Except.ok.inj hlocate ▸ hstaged

/-- A removal leaves what is not named like the removed file. -/
theorem Took.removed (h : Took turn v e) {name : Name} (htemp : EndsWith temp name)
    (hcall : e.call = .rm temp) {place : Path} (hname : place.getLast? ≠ some name) :
    e.after.node? place = e.before.node? place := by
  cases hok : e.ok with
  | false => rw [h.unchanged hok (by simp [hcall])]
  | true =>
      obtain ⟨a, hperform⟩ := h.performed hok
      revert a
      rw [hcall]
      intro a hperform
      obtain hsame | ⟨erased, hlocate, herase⟩ := perform_rm hperform
      · rw [hsame]
      · have hlast := htemp.getLast? hlocate
        have hne : erased ≠ [] := by
          rintro rfl
          cases hlast
        have hother : place ≠ erased := by
          rintro rfl
          exact hname hlast
        rw [herase, Volume.node?_erase hne, if_neg hother]

end

/-! ## What the protocol does -/

section
variable {outside : Nat → Turn} {target temp : JsString} {stage : Stage} {log : List Event}
  {v u : Volume}

/-- The stage says whether there was a commit, -/
theorem Proceeds.committed_iff (h : Proceeds target temp stage log) :
    stage.committed = true ↔ ∃ e ∈ log, Commits target temp e := by
  have hskip {e : Event} {log : List Event} {committed : Bool} (he : ¬ Commits target temp e)
      (ih : committed = true ↔ ∃ e' ∈ log, Commits target temp e') :
      committed = true ↔ ∃ e' ∈ e :: log, Commits target temp e' := by
    simpa [he] using ih
  induction h with
  | start => simp [Stage.committed]
  | look _ hcall ih => exact hskip (not_commits_of_readOnly hcall) ih
  | refused _ _ hok ih => exact hskip (fun hcommits => by simp [Commits, hok] at hcommits) ih
  | create _ mode hcall _ _ ih => exact hskip (fun hcommits => by simp [Commits, hcall] at hcommits) ih
  | edit _ hcall ih =>
      refine hskip ?_ ih
      rintro ⟨-, hcommit | hcommit⟩ <;> rw [hcommit] at hcall <;> cases hcall
  | link _ hcall hok ih => exact iff_of_true rfl ⟨_, List.mem_cons_self, hok, .inl hcall⟩
  | rename _ hcall hok ih => exact iff_of_true rfl ⟨_, List.mem_cons_self, hok, .inr hcall⟩
  | removeStaged _ hcall ih => exact hskip (fun hcommits => by simp [Commits, hcall] at hcommits) ih
  | removeLinked _ hcall ih => exact hskip (fun hcommits => by simp [Commits, hcall] at hcommits) ih

/-- and where the staged file was created. -/
theorem Proceeds.place_of_creates (h : Proceeds target temp stage log) {place : Path}
    (hcreates : ∃ e ∈ log, Creates temp place e) : stage.place? = some place := by
  have hskip {e : Event} {log : List Event} {place' : Option Path} (he : ¬ Creates temp place e)
      (ih : (∃ e' ∈ log, Creates temp place e') → place' = some place)
      (hcreates : ∃ e' ∈ e :: log, Creates temp place e') : place' = some place :=
    ih (by simpa [he] using hcreates)
  induction h with
  | start => simp at hcreates
  | look _ hcall ih => exact hskip (not_creates_of_readOnly hcall) ih hcreates
  | refused _ _ hok ih => exact hskip (fun he => by simp [Creates, hok] at he) ih hcreates
  | create _ mode hcall hok hplace ih =>
      obtain ⟨e', hmem, he'⟩ := hcreates
      obtain rfl | hmem := List.mem_cons.mp hmem
      · exact congrArg some (Except.ok.inj (hplace.symm.trans he'.2.2))
      · exact absurd (ih ⟨e', hmem, he'⟩) (by simp [Stage.place?])
  | edit _ hcall ih =>
      refine hskip ?_ ih hcreates
      rintro ⟨-, ⟨mode, hcreate⟩, -⟩
      rw [hcreate] at hcall
      cases hcall
  | link _ hcall hok ih => exact hskip (fun he => by simp [Creates, hcall] at he) ih hcreates
  | rename _ hcall hok ih => exact hskip (fun he => by simp [Creates, hcall] at he) ih hcreates
  | removeStaged _ hcall ih => exact hskip (fun he => by simp [Creates, hcall] at he) ih hcreates
  | removeLinked _ hcall ih => exact hskip (fun he => by simp [Creates, hcall] at he) ih hcreates

/-- The staged file has the last name of its path string. -/
theorem Proceeds.getLast? {name : Name} (htemp : EndsWith temp name)
    (h : Proceeds target temp stage log) {place : Path} (hplace : stage.place? = some place) :
    place.getLast? = some name := by
  induction h with
  | start => cases hplace
  | look _ _ ih => exact ih hplace
  | refused _ _ _ ih => exact ih hplace
  | create _ mode _ _ hlocate => exact Option.some.inj hplace ▸ htemp.getLast? hlocate
  | edit _ _ ih => exact ih hplace
  | link _ _ _ ih => exact ih hplace
  | rename _ _ _ ih => exact ih hplace
  | removeStaged _ _ ih => exact ih hplace
  | removeLinked _ _ ih => exact ih hplace

/-- Before a commit, only what is named like the staged file is changed. -/
theorem Proceeds.kept {name : Name} (htemp : EndsWith temp name)
    (h : Proceeds target temp stage log) (hchained : Chained outside v log u)
    (hcommitted : stage.committed = false) {place : Path} (hname : place.getLast? ≠ some name)
    (hspared : Spared outside place) : u.node? place = v.node? place := by
  induction h generalizing u with
  | start =>
      cases hchained
      rfl
  | look _ hcall ih =>
      obtain _ | ⟨hchained, htook⟩ := hchained
      rw [htook.readOnly hcall, htook.spared hspared, ih hchained hcommitted]
  | refused _ hcall hok ih =>
      obtain _ | ⟨hchained, htook⟩ := hchained
      rw [htook.refused hcall hok, htook.spared hspared, ih hchained hcommitted]
  | create _ mode hcall hok hlocate ih =>
      obtain _ | ⟨hchained, htook⟩ := hchained
      have hne : place ≠ _ := fun heq => hname (heq ▸ htemp.getLast? hlocate)
      rw [(htook.creates hcall hok hlocate).frame place hne, htook.spared hspared,
        ih hchained rfl]
  | edit h hcall ih =>
      obtain _ | ⟨hchained, htook⟩ := hchained
      have hne : place ≠ _ := fun heq => hname (heq ▸ h.getLast? htemp rfl)
      rw [(htook.edits hcall).1 place hne, htook.spared hspared, ih hchained hcommitted]
  | link => cases hcommitted
  | rename => cases hcommitted
  | removeStaged _ hcall ih =>
      obtain _ | ⟨hchained, htook⟩ := hchained
      rw [htook.removed htemp hcall hname, htook.spared hspared, ih hchained rfl]
  | removeLinked => cases hcommitted

/-- The staged file is there until it is renamed or removed. -/
def Stage.Holds (temp : JsString) (u : Volume) : Stage → Prop
  | .looking => True
  | .staged place => u.locate false temp = .ok place ∧
      ∃ bytes mode, u.node? place = some (.file bytes mode)
  | .linked place => u.locate false temp = .ok place ∧
      ∃ bytes mode, u.node? place = some (.file bytes mode)
  | .renamed place => u.node? place = none
  | .removed place _ => u.node? place = none

/-- Nobody else touches the staged file or the way to it, and its removal does
not fail. -/
structure LeftAlone (outside : Nat → Turn) (temp : JsString) (place : Path) : Prop where
  spared : Spared outside place
  way : ∀ n u, u.locate false temp = .ok place →
    ((outside n).foreign u).locate false temp = .ok place
  removable : ∀ n u, (outside n).fault (.rm temp) u = none

theorem Took.holds {place : Path} (halone : LeftAlone outside temp place) {n : Nat} {e : Event}
    (htook : Took (outside n) u e) (hplace : stage.place? = some place)
    (h : stage.Holds temp u) : stage.Holds temp e.before := by
  have hnode := htook.spared halone.spared
  have hway (hlocate : u.locate false temp = .ok place) :
      e.before.locate false temp = .ok place := htook.before ▸ halone.way n u hlocate
  cases stage with
  | looking => trivial
  | staged place' =>
      obtain rfl := Option.some.inj hplace
      exact ⟨hway h.1, hnode ▸ h.2⟩
  | linked place' =>
      obtain rfl := Option.some.inj hplace
      exact ⟨hway h.1, hnode ▸ h.2⟩
  | renamed place' =>
      obtain rfl := Option.some.inj hplace
      exact hnode.trans h
  | removed place' committed =>
      obtain rfl := Option.some.inj hplace
      exact hnode.trans h

/-- A removal that does not fail leaves nothing at the place. -/
theorem Took.removes {place : Path} (halone : LeftAlone outside temp place) {n : Nat} {e : Event}
    (htook : Took (outside n) u e) (hcall : e.call = .rm temp)
    (hlocate : e.before.locate false temp = .ok place) {bytes : Bytes} {mode : Mode}
    (hnode : e.before.node? place = some (.file bytes mode)) : e.after.node? place = none := by
  obtain ⟨-, -, hafter⟩ | ⟨fault, hfault, -, -⟩ := htook.outcome
  · have hne : place ≠ [] := Volume.ne_nil_of_node? (v := e.before) (by simp [hnode])
    rw [hcall] at hafter
    simp only [perform, Volume.rm, hlocate, hnode] at hafter
    rw [hafter, Volume.node?_erase hne, if_pos rfl]
  · rw [hcall, halone.removable n e.before] at hfault
    cases hfault

theorem Proceeds.holds {name name' : Name} (htarget : EndsWith target name)
    (htemp : EndsWith temp name') (hne : name ≠ name') {place : Path}
    (halone : LeftAlone outside temp place) (h : Proceeds target temp stage log)
    (hchained : Chained outside v log u) (hplace : stage.place? = some place) :
    stage.Holds temp u := by
  induction h generalizing u with
  | start => trivial
  | look _ hcall ih =>
      obtain _ | ⟨hchained, htook⟩ := hchained
      rw [htook.readOnly hcall]
      exact htook.holds halone hplace (ih hchained hplace)
  | refused _ hcall hok ih =>
      obtain _ | ⟨hchained, htook⟩ := hchained
      rw [htook.refused hcall hok]
      exact htook.holds halone hplace (ih hchained hplace)
  | create _ mode hcall hok hlocate =>
      obtain _ | ⟨hchained, htook⟩ := hchained
      have hstaged := htook.creates hcall hok hlocate
      obtain ⟨mode', hfile⟩ := hstaged.file
      exact ⟨Volume.locate_keeps hstaged.keepsWays hlocate, [], mode', hfile⟩
  | edit h hcall ih =>
      obtain _ | ⟨hchained, htook⟩ := hchained
      obtain ⟨hlocate, bytes, mode, hfile⟩ := htook.holds halone hplace (ih hchained hplace)
      obtain ⟨hframe, hedited⟩ := htook.edits hcall
      exact ⟨Volume.locate_keeps (Volume.keepsWays_of_file hframe (.inr ⟨_, _, hfile⟩)) hlocate,
        hedited _ _ hfile⟩
  | @link log e place' h hcall hok ih =>
      obtain _ | ⟨hchained, htook⟩ := hchained
      obtain ⟨hlocate, bytes, mode, hfile⟩ := htook.holds halone hplace (ih hchained hplace)
      obtain ⟨a, hperform⟩ := htook.performed hok
      revert a
      rw [hcall]
      intro a hperform
      obtain ⟨free, source, node, -, hfree, -, -, hput⟩ := perform_link hperform
      have hne : free ≠ [] := Volume.ne_nil_of_node? (v := e.before) (by simp [hfree])
      have hframe (q : Path) (hq : q ≠ free) : e.after.node? q = e.before.node? q := by
        rw [hput, Volume.node?_put hne, if_neg hq]
      have hother : place' ≠ free := by
        rintro rfl
        rw [hfree] at hfile
        cases hfile
      exact ⟨Volume.locate_keeps (Volume.keepsWays_of_file hframe (.inl hfree)) hlocate,
        bytes, mode, (hframe place' hother).trans hfile⟩
  | @rename log e place' h hcall hok ih =>
      obtain _ | ⟨hchained, htook⟩ := hchained
      have hbefore : (Stage.staged place').Holds temp e.before :=
        htook.holds halone hplace (ih hchained hplace)
      obtain ⟨hlocate, bytes, mode, hfile⟩ := hbefore
      obtain ⟨a, hperform⟩ := htook.performed hok
      revert a
      rw [hcall]
      intro a hperform
      obtain ⟨new, source, node, hnew, hdirectory, hsource, hnode, -, hput⟩ := perform_rename hperform
      obtain rfl := Except.ok.inj (hlocate.symm.trans hsource)
      have hnewne : new ≠ [] := Volume.ne_nil_of_node? hdirectory
      have holdne : place' ≠ [] := Volume.ne_nil_of_node? (v := e.before) (by simp [hfile])
      have hother : place' ≠ new := by
        rintro rfl
        have hlast := (htarget.getLast? hnew).symm.trans (htemp.getLast? hlocate)
        exact hne (Option.some.inj hlast)
      change e.after.node? place' = none
      rw [hput, Volume.node?_put hnewne, if_neg hother, Volume.node?_erase holdne, if_pos rfl]
  | @removeStaged log e place' h hcall ih =>
      obtain _ | ⟨hchained, htook⟩ := hchained
      have hbefore : (Stage.staged place').Holds temp e.before :=
        htook.holds halone hplace (ih hchained hplace)
      obtain ⟨hlocate, bytes, mode, hfile⟩ := hbefore
      obtain rfl := Option.some.inj hplace
      exact htook.removes halone hcall hlocate hfile
  | @removeLinked log e place' h hcall ih =>
      obtain _ | ⟨hchained, htook⟩ := hchained
      have hbefore : (Stage.linked place').Holds temp e.before :=
        htook.holds halone hplace (ih hchained hplace)
      obtain ⟨hlocate, bytes, mode, hfile⟩ := hbefore
      obtain rfl := Option.some.inj hplace
      exact htook.removes halone hcall hlocate hfile

/-- Calls that follow the protocol to its end are all or nothing. -/
theorem allOrNothing_of_proceeds {name name' : Name} (htarget : EndsWith target name)
    (htemp : EndsWith temp name') (hne : name ≠ name') {w : World}
    (h : Proceeds target temp stage w.log) (hended : stage.ended = true)
    (hchained : Chained outside v w.log w.vol) :
    AllOrNothing outside target temp (stage.committed = true) v w where
  commit := h.committed_iff
  kept hcommitted u place hplace hspared := by
    refine h.kept htemp hchained (Bool.eq_false_iff.mpr hcommitted) ?_ hspared
    rw [htarget.getLast? hplace]
    exact fun heq => hne (Option.some.inj heq)
  clean place hcreates hspared hway hremovable := by
    have hplace := h.place_of_creates hcreates
    have hholds := h.holds htarget htemp hne ⟨hspared, hway, hremovable⟩ hchained hplace
    cases stage with
    | looking => cases hplace
    | staged place' => cases hended
    | linked place' => cases hended
    | renamed place' => exact Option.some.inj hplace ▸ hholds
    | removed place' committed => exact Option.some.inj hplace ▸ hholds

end

end Benchhand.Filesystem
