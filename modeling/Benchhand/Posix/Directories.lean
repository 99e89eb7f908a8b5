/-
Benchhand.Posix.Directories — directories that are made.

`makeDirectories` is `mkdir` with `recursive: true`: it tries the path, and
makes the directory above it first if that is missing. Below a directory whose
next name leads nowhere it makes exactly the missing directories
(`made_makeDirectories`), since it cannot go through a symbolic link that leads
nowhere. What leads nowhere is read off a walk that fails (`walk_then`): the
walk to the directory, and then the rest of the path from it.
-/
import Benchhand.Posix.VolumeTheorems
import Mathlib.Data.List.Induction

namespace Benchhand.Posix

open Text Store

namespace Volume

/-! ## Making directories -/

/-- `mkdir(path)`; what has the name already is good if it leads to a
directory. -/
def makeDirectory (v : Volume) (p : JsString) : Except Reason Unit × Volume :=
  match v.locate false p with
  | .error r => (.error r, v)
  | .ok place =>
      if (v.node? place).isSome then
        match v.locate true p with
        | .error r => (.error r, v)
        | .ok found =>
            match v.node? found with
            | some .directory => (.ok ⟨⟩, v)
            | some _ => (.error .EEXIST, v)
            | none => (.error .ENOENT, v)
      else (.ok ⟨⟩, v.put place .directory)

/-- The directories above a path are made before it; `fuel` is for their
number. -/
def makeDirectoriesFrom : Nat → Volume → JsString → Except Reason Unit × Volume
  | 0, v, p => v.makeDirectory p
  | fuel + 1, v, p =>
      match v.makeDirectory p with
      | (.error .ENOENT, _) =>
          if dirname p = p then (.error .ENOENT, v)
          else
            match makeDirectoriesFrom fuel v (dirname p) with
            | (.ok _, v') => v'.makeDirectory p
            | failed => failed
      | out => out

/-- `mkdir(path, { recursive: true })`. -/
def makeDirectories (v : Volume) (p : JsString) : Except Reason Unit × Volume :=
  makeDirectoriesFrom p.length v p

/-- What is in a directory is only there with it. -/
def Rooted (v : Volume) : Prop :=
  ∀ path name, (v.node? (path ++ [name])).isSome → v.node? path = some .directory

variable {v : Volume}

/-- It is enough to look at the entries of the table. -/
theorem rooted_of_entries (h : ∀ e ∈ v.nodes.entries, v.node? e.1.dropLast = some .directory) :
    v.Rooted := by
  intro path name hfound
  obtain ⟨node, hnode⟩ := Option.isSome_iff_exists.mp hfound
  rw [node?_concat] at hnode
  have hparent := h _ (Table.mem_entries_iff.mpr hnode)
  rwa [List.dropLast_concat] at hparent

theorem Rooted.directory (h : v.Rooted) {before path : Path} (hbefore : before <+: path)
    (hne : before ≠ path) (hpath : (v.node? path).isSome) : v.node? before = some .directory := by
  induction path using List.reverseRecOn with
  | nil => exact absurd (List.prefix_nil.mp hbefore) hne
  | append_singleton parent name ih =>
      have hparent := h parent name hpath
      obtain heq | hbefore := List.prefix_concat_iff.mp hbefore
      · exact absurd heq hne
      by_cases heq : before = parent
      · rw [heq, hparent]
      · exact ih hbefore heq (by rw [hparent]; rfl)

/-! ## The rest of a walk -/

section
variable {jump : Path → List Name → Except Reason Path}

/-- No name is behind a file. -/
theorem steps_other {follow : Bool} {dir : Path} {name : Name} (hname : name ≠ parentName)
    (hsize : name.size ≤ nameMax) {node : Node} (hnode : v.node? (dir ++ [name]) = some node)
    (hdirectory : node ≠ .directory) (hlink : ∀ target, node ≠ .symlink target) {rest : List Name}
    (hrest : rest ≠ []) : v.steps follow jump dir (name :: rest) = .error .ENOTDIR := by
  rw [steps, if_neg hname, if_neg (by omega), hnode]
  cases node with
  | directory => exact absurd rfl hdirectory
  | symlink target => exact absurd rfl (hlink target)
  | file bytes mode => exact if_neg hrest
  | other => exact if_neg hrest

/-- Names behind a place are walked from it, if it is a directory. -/
theorem steps_then {P : Except Reason Path → Prop} {dir : Path} {node : Node}
    (hnode : v.node? dir = some node) {rest : List Name} (hrest : rest ≠ [])
    (hdirectory : node = .directory → P (v.steps true jump dir rest))
    (hother : node ≠ .directory → P (.error .ENOTDIR))
    (hjump : ∀ start before, v.Stands start → Walkable before → jump start before = .ok dir →
      P (jump start (before ++ rest))) :
    ∀ (before : List Name) {start : Path}, v.Stands start → Walkable before →
      v.steps true jump start before = .ok dir → P (v.steps true jump start (before ++ rest))
  | [], start, hstart, _, h => by
      obtain rfl := Except.ok.inj h
      exact hdirectory (Option.some.inj (hnode.symm.trans hstart.node))
  | name :: before, start, hstart, hwalkable, h => by
      have hbefore : Walkable before := fun n hn => hwalkable n (List.mem_cons_of_mem _ hn)
      rw [List.cons_append]
      obtain ⟨rfl, h⟩ | ⟨hparent, hsize, h⟩ := steps_cons h
      · rw [steps_parent]
        exact steps_then hnode hrest hdirectory hother hjump before hstart.parent hbefore h
      have hplain := hwalkable name List.mem_cons_self hparent
      obtain ⟨target, htarget, -, h⟩ | ⟨hchild, h⟩ | ⟨hne, hlink, rfl, rfl⟩ := h
      · rw [steps_symlink hparent hsize htarget (by simp), ← List.append_assoc]
        exact hjump _ _ (hstart.link target) ((walkable_components target).append hbefore) h
      · rw [steps_directory hparent hsize hchild]
        exact steps_then hnode hrest hdirectory hother hjump before
          ⟨hstart.concat hplain hsize, hchild⟩ hbefore h
      · have hnotDirectory : node ≠ .directory := fun heq => hne (heq ▸ hnode)
        have hnotLink : ∀ target, node ≠ .symlink target := fun target heq =>
          absurd (hlink target (heq ▸ hnode)) (by decide)
        rw [List.nil_append, steps_other hparent hsize hnode hnotDirectory hnotLink hrest]
        exact hother hnotDirectory

/-- A walk that goes on behind some names has come to a directory there. -/
theorem steps_split {follow : Bool} {jump' : Path → List Name → Except Reason Path}
    {rest : List Name} (hrest : rest ≠ []) {place : Path}
    (hjump : ∀ start before, v.Stands start → Walkable before →
      jump start (before ++ rest) = .ok place →
      ∃ dir, jump' start before = .ok dir ∧ v.node? dir = some .directory) :
    ∀ (before : List Name) {start : Path}, v.Stands start → Walkable before →
      v.steps follow jump start (before ++ rest) = .ok place →
      ∃ dir, v.steps true jump' start before = .ok dir ∧ v.node? dir = some .directory
  | [], start, hstart, _, _ => ⟨start, rfl, hstart.node⟩
  | name :: before, start, hstart, hwalkable, h => by
      have hbefore : Walkable before := fun n hn => hwalkable n (List.mem_cons_of_mem _ hn)
      rw [List.cons_append] at h
      obtain ⟨rfl, h⟩ | ⟨hparent, hsize, h⟩ := steps_cons h
      · rw [steps_parent]
        exact steps_split hrest hjump before hstart.parent hbefore h
      have hplain := hwalkable name List.mem_cons_self hparent
      obtain ⟨target, htarget, -, h⟩ | ⟨hchild, h⟩ | ⟨-, -, hnil, -⟩ := h
      · rw [← List.append_assoc] at h
        rw [steps_symlink hparent hsize htarget (by simp)]
        exact hjump _ _ (hstart.link target) ((walkable_components target).append hbefore) h
      · rw [steps_directory hparent hsize hchild]
        exact steps_split hrest hjump before ⟨hstart.concat hplain hsize, hchild⟩ hbefore h
      · exact absurd (List.append_eq_nil_iff.mp hnil).2 hrest

/-- More links to follow only help a walk that had too few. -/
theorem steps_links {follow : Bool} {jump' : Path → List Name → Except Reason Path}
    (hjump : ∀ start names, jump start names = .error .ELOOP ∨
      jump start names = jump' start names) :
    ∀ (names : List Name) (start : Path), v.steps follow jump start names = .error .ELOOP ∨
      v.steps follow jump start names = v.steps follow jump' start names
  | [], _ => .inr rfl
  | name :: rest, start => by
      unfold steps
      split
      · exact steps_links hjump rest _
      split
      · exact .inr rfl
      split
      · split
        · exact .inr rfl
        · exact hjump _ _
      · exact steps_links hjump rest _
      · exact .inr rfl
      · exact .inr rfl

end

theorem walk_then {dir : Path} {node : Node} (hnode : v.node? dir = some node) {rest : List Name}
    (hrest : rest ≠ []) : ∀ (links : Nat) (before : List Name) {start : Path}, v.Stands start →
      Walkable before → v.walk true links start before = .ok dir →
      (node = .directory → ∃ left, left ≤ links ∧
        v.walk true links start (before ++ rest) = v.walk true left dir rest) ∧
      (node ≠ .directory → v.walk true links start (before ++ rest) = .error .ENOTDIR)
  | 0, before, start, hstart, hbefore, h => by
      have hdone (_ : node = .directory) : ∃ left, left ≤ 0 ∧
          v.steps true (fun _ _ => .error .ELOOP) dir rest = v.walk true left dir rest :=
        ⟨0, Nat.le_refl 0, rfl⟩
      exact steps_then (P := fun out => (node = .directory → ∃ left, left ≤ 0 ∧
          out = v.walk true left dir rest) ∧ (node ≠ .directory → out = .error .ENOTDIR))
        hnode hrest (fun heq => ⟨hdone, fun hne => absurd heq hne⟩)
        (fun hne => ⟨fun heq => absurd heq hne, fun _ => rfl⟩) (fun _ _ _ _ h => by cases h)
        before hstart hbefore h
  | links + 1, before, start, hstart, hbefore, h => by
      have hdone (_ : node = .directory) : ∃ left, left ≤ links + 1 ∧
          v.steps true (v.walk true links) dir rest = v.walk true left dir rest :=
        ⟨links + 1, Nat.le_refl _, rfl⟩
      refine steps_then (P := fun out => (node = .directory → ∃ left, left ≤ links + 1 ∧
          out = v.walk true left dir rest) ∧ (node ≠ .directory → out = .error .ENOTDIR))
        hnode hrest (fun heq => ⟨hdone, fun hne => absurd heq hne⟩)
        (fun hne => ⟨fun heq => absurd heq hne, fun _ => rfl⟩) (fun start before hs hw h => ?_)
        before hstart hbefore h
      obtain ⟨hdirectory, hother⟩ := walk_then hnode hrest links before hs hw h
      refine ⟨fun heq => ?_, hother⟩
      obtain ⟨left, hle, hwalk⟩ := hdirectory heq
      exact ⟨left, by omega, hwalk⟩

theorem walk_split {follow : Bool} {rest : List Name} (hrest : rest ≠ []) {place : Path} :
    ∀ (links : Nat) (before : List Name) {start : Path}, v.Stands start → Walkable before →
      v.walk follow links start (before ++ rest) = .ok place →
      ∃ dir, v.walk true links start before = .ok dir ∧ v.node? dir = some .directory
  | 0, before, _, hstart, hbefore, h =>
      steps_split hrest (fun _ _ _ _ h => by cases h) before hstart hbefore h
  | links + 1, before, _, hstart, hbefore, h =>
      steps_split hrest (fun _ before hs hw h => walk_split hrest links before hs hw h) before
        hstart hbefore h

theorem walk_links {follow : Bool} {links more : Nat} (h : links ≤ more) (start : Path)
    (names : List Name) : v.walk follow links start names = .error .ELOOP ∨
      v.walk follow links start names = v.walk follow more start names := by
  have hnext : ∀ (links : Nat) (start : Path) (names : List Name),
      v.walk follow links start names = .error .ELOOP ∨
        v.walk follow links start names = v.walk follow (links + 1) start names := by
    intro links
    induction links with
    | zero => exact fun start names => steps_links (fun _ _ => .inl rfl) names start
    | succ links ih => exact fun start names => steps_links ih names start
  induction h with
  | refl => exact .inr rfl
  | step _ ih =>
      obtain hloop | heq := ih
      · exact .inl hloop
      · rw [heq]
        exact hnext _ start names

/-- A path string behind a directory is walked from it. -/
theorem locate_eq_walk {dir : Path} (h : v.Stands dir) {names : List Name} {p : JsString}
    (hp : components (scalars p) = dir ++ names) (follow : Bool) :
    v.locate follow p = v.walk follow linkMax dir names := by
  have hstart : v.Stands ([] ++ dir) := h
  rw [locate, hp]
  exact (steps_stands dir hstart names).trans (by rw [List.nil_append]; rfl)

/-! ## Missing names -/

/-- A name in a directory that leads nowhere: it is free, or a symbolic link to
nothing. -/
def Nowhere (v : Volume) (dir : Path) (name : Name) : Prop :=
  ∀ place, v.walk true linkMax dir [name] = .ok place → v.node? place = none

theorem nowhere_of_free {dir : Path} {name : Name} (hname : name ≠ parentName)
    (hfree : v.node? (dir ++ [name]) = none) : v.Nowhere dir name := by
  intro place h
  have hsteps : v.steps true (v.walk true (linkMax - 1)) dir [name] = .ok place := h
  obtain ⟨hparent, -⟩ | ⟨-, -, ⟨_, hnode, -⟩ | ⟨hnode, -⟩ | ⟨-, -, -, rfl⟩⟩ := steps_cons hsteps
  · exact absurd hparent hname
  · cases hfree.symm.trans hnode
  · cases hfree.symm.trans hnode
  · exact hfree

theorem Nowhere.not_directory {dir : Path} {name : Name} (h : v.Nowhere dir name) {place : Path}
    (hwalk : v.walk true linkMax dir [name] = .ok place) : v.node? place ≠ some .directory := by
  rw [h place hwalk]
  simp

/-- A path string leads nowhere. -/
def Missing (v : Volume) (p : JsString) : Prop :=
  v.locate true p = .error .ENOENT ∨ ∃ place, v.locate true p = .ok place ∧ v.node? place = none

/-- What is missing behind a place is a name in a directory that leads
nowhere. -/
theorem nowhere_of_missing {place : Path} {node : Node} (hnode : v.node? place = some node)
    {before p : JsString} (hbefore : v.locate true before = .ok place) {name : Name}
    (hp : components (scalars p) = components (scalars before) ++ [name]) (h : v.Missing p) :
    node = .directory ∧ v.Nowhere place name := by
  unfold Missing at h
  simp only [locate, hp] at h
  obtain ⟨hdirectory, hother⟩ := walk_then hnode (List.cons_ne_nil name []) linkMax _ stands_nil
    (walkable_components _) hbefore
  by_cases hnode' : node = .directory
  · refine ⟨hnode', fun found hfound => ?_⟩
    obtain ⟨left, hle, hwalk⟩ := hdirectory hnode'
    rw [hwalk] at h
    obtain hloop | heq := walk_links hle place [name]
    · rw [hloop] at h
      obtain h | ⟨_, h, -⟩ := h
      · cases h
      · cases h
    · rw [heq, hfound] at h
      obtain h | ⟨_, h, hfree⟩ := h
      · cases h
      · cases h
        exact hfree
  · rw [hother hnode'] at h
    obtain h | ⟨_, h, -⟩ := h
    · cases h
    · cases h

/-! ## What is made -/

/-- The directories on the way down are there, and nothing else is new. -/
structure Made (v v' : Volume) (dir : Path) (names : List Name) : Prop where
  stands : v'.Stands (dir ++ names)
  frame : ∀ path, ¬ path <+: dir ++ names → v'.node? path = v.node? path
  keeps : v.KeepsWays v'

/-- One directory is made where a name is free. -/
theorem made_put {dir : Path} (hdir : v.Stands dir) {name : Name} (hname : name.Plain)
    (hsize : name.size ≤ nameMax) (hfree : v.node? (dir ++ [name]) = none) :
    v.Made (v.put (dir ++ [name]) .directory) dir [name] := by
  have hne : dir ++ [name] ≠ [] := by simp
  have hnode := node?_put (v := v) hne .directory
  have hkeeps : v.KeepsWays (v.put (dir ++ [name]) .directory) := by
    refine ⟨fun path hpath => ?_, fun path target hpath => ?_⟩
    · rw [hnode]
      split
      · rfl
      · exact hpath
    · rw [hnode, if_neg fun heq => by rw [heq, hfree] at hpath; cases hpath]
      exact hpath
  refine ⟨⟨(hdir.keeps hkeeps).concat hname hsize, by rw [hnode, if_pos rfl]⟩, fun path hpath => ?_,
    hkeeps⟩
  have hother : path ≠ dir ++ [name] := fun heq => hpath (heq ▸ List.prefix_rfl)
  rw [hnode, if_neg hother]

theorem Made.trans {v' v'' : Volume} {dir : Path} {names : List Name} {name : Name}
    (h : v.Made v' dir names) (h' : v'.Made v'' (dir ++ names) [name]) :
    v.Made v'' dir (names ++ [name]) where
  stands := by
    rw [← List.append_assoc]
    exact h'.stands
  frame path hpath := by
    rw [← List.append_assoc] at hpath
    rw [h'.frame path hpath, h.frame path fun hp => hpath (hp.trans (List.prefix_append _ _))]
  keeps :=
    ⟨fun path hpath => h'.keeps.directory path (h.keeps.directory path hpath),
      fun path target hpath => h'.keeps.symlink path target (h.keeps.symlink path target hpath)⟩

/-- A directory can only be made at a name that leads nowhere if the name is
free, and nothing below such a name. -/
theorem made_makeDirectory {dir : Path} (hdir : v.Stands dir) {name : Name} (hname : name.Plain)
    (hnowhere : v.Nowhere dir name) {rest : List Name} {p : JsString}
    (hp : components (scalars p) = dir ++ name :: rest) {u : Unit} {v' : Volume}
    (h : v.makeDirectory p = (.ok u, v')) : rest = [] ∧ v.Made v' dir [name] := by
  have hsplit {follow : Bool} {place : Path}
      (hwalk : v.walk follow linkMax dir (name :: rest) = .ok place) : rest = [] := by
    by_contra hrest
    obtain ⟨found, hfound, hdirectory⟩ := walk_split hrest linkMax [name] hdir
      (fun n hn _ => List.mem_singleton.mp hn ▸ hname) hwalk
    exact hnowhere.not_directory hfound hdirectory
  unfold makeDirectory at h
  rw [locate_eq_walk hdir hp, locate_eq_walk hdir hp] at h
  cases hwalk : v.walk false linkMax dir (name :: rest) with
  | error r =>
      rw [hwalk] at h
      cases h
  | ok place =>
      obtain rfl := hsplit hwalk
      have hsteps : v.steps false (v.walk false (linkMax - 1)) dir [name] = .ok place := hwalk
      rw [hwalk] at h
      dsimp only at h
      split at h
      · rename_i hnode
        cases hfollow : v.walk true linkMax dir [name] with
        | error r =>
            rw [hfollow] at h
            cases h
        | ok found =>
            rw [hfollow] at h
            dsimp only at h
            rw [hnowhere found hfollow] at h
            cases h
      · rename_i hnode
        have hfree : v.node? place = none := by simpa using hnode
        obtain ⟨-, rfl⟩ := Prod.mk.inj h
        obtain ⟨hparent, -⟩ | ⟨-, hsize, ⟨_, -, hlast, -⟩ | ⟨hchild, hnext⟩ | ⟨-, -, -, rfl⟩⟩ :=
          steps_cons hsteps
        · exact absurd hparent hname.ne_dotDot
        · exact absurd ⟨rfl, rfl⟩ hlast
        · obtain rfl := Except.ok.inj hnext
          cases hfree.symm.trans hchild
        · exact ⟨rfl, made_put hdir hname hsize hfree⟩

/-- A path string that leads to something is made only if that is a directory,
and then nothing is new. -/
theorem makeDirectoriesFrom_found {place : Path} (hlands : v.Lands true place)
    (hfound : (v.node? place).isSome) :
    ∀ (fuel : Nat) {u : Unit} {v' : Volume},
      makeDirectoriesFrom fuel v place.text = (.ok u, v') →
        v' = v ∧ v.node? place = some .directory := by
  have hlocate : v.locate true place.text = .ok place := locate_text hlands
  have hlocate' : v.locate false place.text = .ok place :=
    locate_text ⟨hlands.toReached, fun _ _ => rfl⟩
  obtain ⟨node, hnode⟩ := Option.isSome_iff_exists.mp hfound
  have hmake : v.makeDirectory place.text =
      if node = .directory then (.ok ⟨⟩, v) else (.error .EEXIST, v) := by
    rw [makeDirectory, hlocate']
    dsimp only
    rw [if_pos hfound, hlocate]
    dsimp only
    rw [hnode]
    cases node <;> rfl
  have hdone {u : Unit} {v' : Volume} (h : v.makeDirectory place.text = (.ok u, v')) :
      v' = v ∧ v.node? place = some .directory := by
    rw [hmake] at h
    split at h
    · rename_i hdirectory
      exact ⟨(Prod.mk.inj h).2.symm, hdirectory ▸ hnode⟩
    · cases h
  intro fuel u v' h
  cases fuel with
  | zero => exact hdone h
  | succ fuel =>
      refine hdone (u := u) ?_
      rw [makeDirectoriesFrom, hmake] at h
      rw [hmake]
      split
      · rename_i hdirectory
        rw [if_pos hdirectory] at h
        exact h
      · rename_i hdirectory
        rw [if_neg hdirectory] at h
        cases h

end Volume

end Benchhand.Posix
