/-
Benchhand.Posix.VolumeTheorems — where a path string leads.

A walk ends at a place whose directories are all there (`Reached`), so the
text of that place leads to it again (`locate_text`); names behind a directory
are walked from it (`walk_append`); and a walk to a directory only looks at
directories and symbolic links (`walk_agree`).
-/
import Benchhand.Posix.PathTheorems
import Benchhand.Posix.Volume

namespace Benchhand.Posix

open Text Store

/-! ## Names of a walk -/

theorem plain_of_mem_components {p : List Char} {name : Name} (h : name ∈ components p)
    (hname : name ≠ parentName) : name.Plain := by
  obtain ⟨hmem, hne⟩ := List.mem_filter.mp h
  rw [Bool.and_eq_true, decide_eq_true_eq, decide_eq_true_eq] at hne
  exact ⟨hne.1, hne.2, hname, not_mem_of_mem_splitOn _ hmem⟩

/-- Each name is plain or leads to the parent. -/
def Walkable (names : List Name) : Prop := ∀ name ∈ names, name ≠ parentName → name.Plain

theorem walkable_components (p : List Char) : Walkable (components p) :=
  fun _ hmem hne => plain_of_mem_components hmem hne

theorem Walkable.append {a b : List Name} (ha : Walkable a) (hb : Walkable b) :
    Walkable (a ++ b) := fun name hmem =>
  (List.mem_append.mp hmem).elim (ha name) (hb name)

/-- A name that a directory entry can have. -/
structure Name.Legal (name : Name) : Prop extends Name.Plain name where
  short : name.size ≤ nameMax
  noNul : '\x00' ∉ name

/-! ## Places -/

/-- A place that a walk can come to: the names are plain and short, and the
directories before the last name are there. -/
structure Volume.Reached (v : Volume) (place : Path) : Prop where
  plain : place.Plain
  short : ∀ name ∈ place, name.size ≤ nameMax
  directories : ∀ dir name, dir ++ [name] <+: place → v.node? dir = some .directory

/-- A directory that a walk can come to. -/
structure Volume.Stands (v : Volume) (dir : Path) : Prop extends v.Reached dir where
  node : v.node? dir = some .directory

/-- The end of a walk; one that follows links does not end at a link. -/
structure Volume.Lands (v : Volume) (follow : Bool) (place : Path) : Prop
    extends v.Reached place where
  noLink : ∀ target, v.node? place = some (.symlink target) → follow = false

namespace Volume

variable {v : Volume}

@[simp] theorem node?_nil : v.node? [] = some .directory := rfl

theorem stands_nil : v.Stands [] where
  plain _ h := absurd h List.not_mem_nil
  short _ h := absurd h List.not_mem_nil
  directories dir name h := by simp at h
  node := rfl

theorem Reached.of_prefix {place later : Path} (h : v.Reached later) (hp : place <+: later) :
    v.Reached place where
  plain name hname := h.plain name (hp.subset hname)
  short name hname := h.short name (hp.subset hname)
  directories dir name hdir := h.directories dir name (hdir.trans hp)

/-- The directory of a place. -/
theorem Reached.parent {place : Path} (h : v.Reached place) : v.Stands place.dropLast where
  toReached := h.of_prefix (List.dropLast_prefix place)
  node := by
    obtain rfl | ⟨dir, name, rfl⟩ := List.eq_nil_or_concat place
    · rfl
    · rw [List.concat_eq_append] at h ⊢
      rw [List.dropLast_concat]
      exact h.directories dir name (List.prefix_refl _)

/-- Every directory on the way to a directory. -/
theorem Stands.of_prefix {dir before : Path} (h : v.Stands dir) (hp : before <+: dir) :
    v.Stands before where
  toReached := h.toReached.of_prefix hp
  node := by
    obtain ⟨rest, rfl⟩ := hp
    cases rest with
    | nil => simpa using h.node
    | cons name rest => exact h.directories before name ⟨rest, by simp⟩

/-- One more name below a directory. -/
theorem Stands.concat {dir : Path} (h : v.Stands dir) {name : Name} (hname : name.Plain)
    (hsize : name.size ≤ nameMax) : v.Reached (dir ++ [name]) where
  plain n hn := by
    obtain hn | hn := List.mem_append.mp hn
    · exact h.plain n hn
    · exact List.mem_singleton.mp hn ▸ hname
  short n hn := by
    obtain hn | hn := List.mem_append.mp hn
    · exact h.short n hn
    · exact List.mem_singleton.mp hn ▸ hsize
  directories d n hd := by
    obtain heq | hlt := List.prefix_concat_iff.mp hd
    · rw [List.append_inj_left' heq rfl]
      exact h.node
    · exact h.directories d n hlt

theorem Stands.lands {dir : Path} (h : v.Stands dir) (follow : Bool) : v.Lands follow dir where
  toReached := h.toReached
  noLink target htarget := by
    rw [h.node] at htarget
    cases htarget

/-! ## Steps of a walk -/

section
variable {follow : Bool} {jump : Path → List Name → Except Reason Path}

theorem steps_nil (dir : Path) : v.steps follow jump dir [] = .ok dir := rfl

theorem steps_parent (dir : Path) (rest : List Name) :
    v.steps follow jump dir (parentName :: rest) = v.steps follow jump dir.dropLast rest := by
  rw [steps, if_pos rfl]

/-- A name that leads to a directory. -/
theorem steps_directory {dir : Path} {name : Name} (hname : name ≠ parentName)
    (hsize : name.size ≤ nameMax) (hnode : v.node? (dir ++ [name]) = some .directory)
    (rest : List Name) :
    v.steps follow jump dir (name :: rest) = v.steps follow jump (dir ++ [name]) rest := by
  rw [steps, if_neg hname, if_neg (by omega), hnode]

/-- A symbolic link to follow. -/
theorem steps_symlink {dir : Path} {name : Name} (hname : name ≠ parentName)
    (hsize : name.size ≤ nameMax) {target : List Char}
    (hnode : v.node? (dir ++ [name]) = some (.symlink target)) {rest : List Name}
    (hrest : ¬ (rest = [] ∧ follow = false)) :
    v.steps follow jump dir (name :: rest) =
      jump (if target.head? = some '/' then [] else dir) (components target ++ rest) := by
  rw [steps, if_neg hname, if_neg (by omega), hnode]
  exact if_neg hrest

/-- The last name, when it is no symbolic link to follow. -/
theorem steps_last {dir : Path} {name : Name} (hname : name ≠ parentName)
    (hsize : name.size ≤ nameMax)
    (hnode : ∀ target, v.node? (dir ++ [name]) = some (.symlink target) → follow = false) :
    v.steps follow jump dir [name] = .ok (dir ++ [name]) := by
  rw [steps, if_neg hname, if_neg (by omega)]
  split
  · rename_i target heq
    rw [if_pos ⟨rfl, hnode target heq⟩]
  · rfl
  · rfl
  · rfl

/-- A walk that succeeds has a first step: to the parent, behind a symbolic
link, into a directory, or to the last name. -/
theorem steps_cons {dir : Path} {name : Name} {rest : List Name} {place : Path}
    (h : v.steps follow jump dir (name :: rest) = .ok place) :
    (name = parentName ∧ v.steps follow jump dir.dropLast rest = .ok place) ∨
    (name ≠ parentName ∧ name.size ≤ nameMax ∧
      ((∃ target, v.node? (dir ++ [name]) = some (.symlink target) ∧
          ¬ (rest = [] ∧ follow = false) ∧
          jump (if target.head? = some '/' then [] else dir) (components target ++ rest) =
            .ok place) ∨
        (v.node? (dir ++ [name]) = some .directory ∧
          v.steps follow jump (dir ++ [name]) rest = .ok place) ∨
        (v.node? (dir ++ [name]) ≠ some .directory ∧
          (∀ target, v.node? (dir ++ [name]) = some (.symlink target) → follow = false) ∧
          rest = [] ∧ place = dir ++ [name]))) := by
  by_cases hparent : name = parentName
  · rw [hparent, steps_parent] at h
    exact .inl ⟨hparent, h⟩
  rw [steps, if_neg hparent] at h
  by_cases hsize : nameMax < name.size
  · rw [if_pos hsize] at h
    cases h
  rw [if_neg hsize] at h
  refine .inr ⟨hparent, by omega, ?_⟩
  have hlast : ∀ {r : Reason}, (if rest = [] then Except.ok (dir ++ [name]) else .error r) =
      .ok place → rest = [] ∧ place = dir ++ [name] := by
    intro r h
    split at h
    · rename_i hrest
      exact ⟨hrest, (Except.ok.inj h).symm⟩
    · cases h
  split at h
  · rename_i target hnode
    split at h
    · rename_i hstay
      exact .inr (.inr ⟨by rw [hnode]; simp, fun _ _ => hstay.2, hstay.1,
        (Except.ok.inj h).symm⟩)
    · rename_i hgo
      exact .inl ⟨target, hnode, hgo, h⟩
  · rename_i hnode
    exact .inr (.inl ⟨hnode, h⟩)
  · rename_i node hsymlink hdirectory hnode
    refine .inr (.inr ⟨by rw [hnode]; simpa using hdirectory, fun target htarget => ?_, hlast h⟩)
    exact absurd (Option.some.inj (hnode.symm.trans htarget)) (hsymlink target)
  · rename_i hnode
    exact .inr (.inr ⟨by rw [hnode]; simp, by simp [hnode], hlast h⟩)

/-- A walk through directories that are there goes straight down. -/
theorem steps_lands : ∀ (names : List Name) {dir : Path}, v.Lands follow (dir ++ names) →
    v.steps follow jump dir names = .ok (dir ++ names)
  | [], dir, _ => by rw [List.append_nil, steps_nil]
  | [name], _, h => steps_last (h.plain name (by simp)).ne_dotDot (h.short name (by simp)) h.noLink
  | name :: next :: rest, dir, h => by
      have hsplit : dir ++ name :: next :: rest = dir ++ [name] ++ next :: rest := by simp
      rw [hsplit] at h ⊢
      have hnode := h.directories (dir ++ [name]) next ⟨rest, by simp⟩
      rw [steps_directory (h.plain name (by simp)).ne_dotDot (h.short name (by simp)) hnode]
      exact steps_lands (next :: rest) h

/-- A walk goes straight down to a directory that is there. -/
theorem steps_stands : ∀ (dir : Path) {start : Path}, v.Stands (start ++ dir) →
    ∀ rest : List Name, v.steps follow jump start (dir ++ rest) =
      v.steps follow jump (start ++ dir) rest
  | [], start, _, rest => by rw [List.nil_append, List.append_nil]
  | name :: dir, start, h, rest => by
      have hsplit : start ++ name :: dir = start ++ [name] ++ dir := by simp
      rw [hsplit] at h ⊢
      have hnode : v.node? (start ++ [name]) = some .directory := by
        cases dir with
        | nil => simpa using h.node
        | cons next dir => exact h.directories _ next ⟨dir, by simp⟩
      rw [List.cons_append, steps_directory (h.plain name (by simp)).ne_dotDot
        (h.short name (by simp)) hnode, steps_stands dir h rest]

/-- Where a link leads. -/
theorem Stands.link {dir : Path} (h : v.Stands dir) (target : List Char) :
    v.Stands (if target.head? = some '/' then [] else dir) := by
  split
  · exact stands_nil
  · exact h

theorem lands_of_steps
    (hjump : ∀ {dir names place}, v.Stands dir → Walkable names → jump dir names = .ok place →
      v.Lands follow place) :
    ∀ (names : List Name) {dir place : Path}, v.Stands dir → Walkable names →
      v.steps follow jump dir names = .ok place → v.Lands follow place
  | [], _, _, hdir, _, h => by
      cases h
      exact hdir.lands follow
  | name :: rest, dir, place, hdir, hnames, h => by
      have hrest : Walkable rest := fun n hn => hnames n (List.mem_cons_of_mem _ hn)
      obtain ⟨-, h⟩ | ⟨hparent, hsize, h⟩ := steps_cons h
      · exact lands_of_steps hjump rest hdir.parent hrest h
      have hplain := hnames name List.mem_cons_self hparent
      obtain ⟨target, -, -, h⟩ | ⟨hchild, h⟩ | ⟨-, hlink, -, rfl⟩ := h
      · exact hjump (hdir.link target) ((walkable_components target).append hrest) h
      · exact lands_of_steps hjump rest ⟨hdir.concat hplain hsize, hchild⟩ hrest h
      · exact ⟨hdir.concat hplain hsize, hlink⟩

end

/-! ## Walks -/

theorem lands_of_walk : ∀ (links : Nat) {follow : Bool} {names : List Name} {dir place : Path},
    v.Stands dir → Walkable names → v.walk follow links dir names = .ok place →
    v.Lands follow place
  | 0, _, names, _, _, hdir, hnames, h =>
      lands_of_steps (fun _ _ h => by cases h) names hdir hnames h
  | links + 1, _, names, _, _, hdir, hnames, h =>
      lands_of_steps (fun hdir hnames h => lands_of_walk links hdir hnames h) names hdir hnames h

/-- A path string leads to a place. -/
theorem lands_of_locate {follow : Bool} {p : JsString} {place : Path}
    (h : v.locate follow p = .ok place) : v.Lands follow place :=
  lands_of_walk linkMax stands_nil (walkable_components _) h

theorem walk_lands (links : Nat) {follow : Bool} {dir : Path} {names : List Name}
    (h : v.Lands follow (dir ++ names)) : v.walk follow links dir names = .ok (dir ++ names) := by
  cases links with
  | zero => exact steps_lands names h
  | succ links => exact steps_lands names h

/-- The walk to a directory and names below it starts at the directory. -/
theorem locate_components {dir : Path} (h : v.Stands dir) {names : List Name} {p : JsString}
    (hp : components (scalars p) = dir ++ names) (follow : Bool) :
    ∃ jump, v.locate follow p = v.steps follow jump dir names := by
  have hwalk : ∃ jump, v.walk follow linkMax = v.steps follow jump := ⟨_, rfl⟩
  obtain ⟨jump, hjump⟩ := hwalk
  have hstart : v.Stands ([] ++ dir) := h
  exact ⟨jump, by rw [locate, hp, hjump, steps_stands dir hstart, List.nil_append]⟩

/-- The text of a place leads to it. -/
theorem locate_text {follow : Bool} {place : Path} (h : v.Lands follow place) :
    v.locate follow place.text = .ok place := by
  rw [locate, components_text h.plain]
  have hstart : v.Lands follow ([] ++ place) := h
  exact walk_lands linkMax hstart

/-- Every directory and every symbolic link of `v` is in `later`. -/
structure KeepsWays (v later : Volume) : Prop where
  directory : ∀ path, v.node? path = some .directory → later.node? path = some .directory
  symlink : ∀ path target, v.node? path = some (.symlink target) →
    later.node? path = some (.symlink target)

theorem KeepsWays.refl (v : Volume) : v.KeepsWays v := ⟨fun _ h => h, fun _ _ h => h⟩

theorem steps_append {later : Volume} (hways : v.KeepsWays later) {follow : Bool} {dir : Path}
    (hdir : v.node? dir = some .directory) {names : List Name} (hfollow : names = [] → follow = true)
    (hlands : later.Lands follow (dir ++ names))
    {jump jump' : Path → List Name → Except Reason Path}
    (hjump : ∀ start before, jump start before = .ok dir →
      jump' start (before ++ names) = .ok (dir ++ names)) :
    ∀ (before : List Name) {start : Path}, v.steps true jump start before = .ok dir →
      later.steps follow jump' start (before ++ names) = .ok (dir ++ names)
  | [], _, h => by
      cases h
      exact steps_lands names hlands
  | name :: rest, start, h => by
      rw [List.cons_append]
      obtain ⟨rfl, h⟩ | ⟨hparent, hsize, h⟩ := steps_cons h
      · rw [steps_parent]
        exact steps_append hways hdir hfollow hlands hjump rest h
      obtain ⟨target, hnode, -, h⟩ | ⟨hnode, h⟩ | ⟨hnode, -, -, rfl⟩ := h
      · rw [steps_symlink hparent hsize (hways.symlink _ target hnode), ← List.append_assoc]
        · exact hjump _ _ h
        · intro hend
          have := hfollow (List.append_eq_nil_iff.mp hend.1).2
          simp [this] at hend
      · rw [steps_directory hparent hsize (hways.directory _ hnode)]
        exact steps_append hways hdir hfollow hlands hjump rest h
      · exact absurd hdir hnode

/-- Names behind a directory are walked from it, whatever way led there. -/
theorem walk_append {later : Volume} (hways : v.KeepsWays later) {follow : Bool} {dir : Path}
    (hdir : v.node? dir = some .directory) {names : List Name} (hfollow : names = [] → follow = true)
    (hlands : later.Lands follow (dir ++ names)) :
    ∀ (links : Nat) (before : List Name) {start : Path}, v.walk true links start before = .ok dir →
      later.walk follow links start (before ++ names) = .ok (dir ++ names)
  | 0, before, _, h => steps_append hways hdir hfollow hlands (fun _ _ h => by cases h) before h
  | links + 1, before, _, h =>
      steps_append hways hdir hfollow hlands
        (fun _ before h => walk_append hways hdir hfollow hlands links before h) before h

/-- A path string that does not follow a last link leads where it led before. -/
theorem steps_keeps {later : Volume} (hways : v.KeepsWays later) {place : Path}
    {jump jump' : Path → List Name → Except Reason Path}
    (hjump : ∀ start names, jump start names = .ok place → jump' start names = .ok place) :
    ∀ (names : List Name) {start : Path}, v.steps false jump start names = .ok place →
      later.steps false jump' start names = .ok place
  | [], _, h => h
  | name :: rest, start, h => by
      obtain ⟨rfl, h⟩ | ⟨hparent, hsize, h⟩ := steps_cons h
      · rw [steps_parent]
        exact steps_keeps hways hjump rest h
      obtain ⟨target, hnode, hgo, h⟩ | ⟨hnode, h⟩ | ⟨-, -, rfl, rfl⟩ := h
      · rw [steps_symlink hparent hsize (hways.symlink _ target hnode) hgo]
        exact hjump _ _ h
      · rw [steps_directory hparent hsize (hways.directory _ hnode)]
        exact steps_keeps hways hjump rest h
      · exact steps_last hparent hsize fun _ _ => rfl

theorem walk_keeps {later : Volume} (hways : v.KeepsWays later) {place : Path} :
    ∀ (links : Nat) (names : List Name) {start : Path}, v.walk false links start names = .ok place →
      later.walk false links start names = .ok place
  | 0, names, _, h => steps_keeps hways (fun _ _ h => by cases h) names h
  | links + 1, names, _, h =>
      steps_keeps hways (fun _ names h => walk_keeps hways links names h) names h

theorem locate_keeps {later : Volume} (hways : v.KeepsWays later) {p : JsString} {place : Path}
    (h : v.locate false p = .ok place) : later.locate false p = .ok place :=
  walk_keeps hways linkMax _ h

theorem Stands.keeps {later : Volume} (hways : v.KeepsWays later) {dir : Path} (h : v.Stands dir) :
    later.Stands dir where
  plain := h.plain
  short := h.short
  directories d name hd := hways.directory d (h.directories d name hd)
  node := hways.directory dir h.node

/-! ## Changed objects -/

theorem node?_put {path : Path} (hne : path ≠ []) (node : Node) (q : Path) :
    (v.put path node).node? q = if q = path then some node else v.node? q := by
  unfold node? put
  dsimp only
  rw [Table.find?_put]
  by_cases hq : q = []
  · rw [if_pos hq, if_pos hq, if_neg (by rw [hq]; exact hne.symm)]
  · rw [if_neg hq, if_neg hq]

theorem node?_erase {path : Path} (hne : path ≠ []) (q : Path) :
    (v.erase path).node? q = if q = path then none else v.node? q := by
  unfold node? erase
  dsimp only
  rw [Table.find?_erase]
  by_cases hq : q = []
  · rw [if_pos hq, if_pos hq, if_neg (by rw [hq]; exact hne.symm)]
  · rw [if_neg hq, if_neg hq]

/-- An object that is no directory is at no root. -/
theorem ne_nil_of_node? {path : Path} (h : v.node? path ≠ some .directory) : path ≠ [] := by
  rintro rfl
  exact h rfl

/-- Where a walk ends that stops at the last entry; if there is an object
behind the entry, then there is one at it. -/
theorem steps_noFollow {jump jump' : Path → List Name → Except Reason Path}
    (hjump : ∀ start names place, jump start names = .ok place →
      ∃ entry, jump' start names = .ok entry ∧
        ((v.node? place).isSome = true → (v.node? entry).isSome = true)) :
    ∀ (names : List Name) {start place : Path}, v.steps true jump start names = .ok place →
      ∃ entry, v.steps false jump' start names = .ok entry ∧
        ((v.node? place).isSome = true → (v.node? entry).isSome = true)
  | [], start, _, h => ⟨start, rfl, Except.ok.inj h ▸ id⟩
  | name :: rest, start, place, h => by
      obtain ⟨rfl, h⟩ | ⟨hparent, hsize, h⟩ := steps_cons h
      · rw [steps_parent]
        exact steps_noFollow hjump rest h
      obtain ⟨target, hnode, -, h⟩ | ⟨hnode, h⟩ | ⟨-, -, rfl, rfl⟩ := h
      · by_cases hrest : rest = []
        · subst hrest
          exact ⟨_, steps_last hparent hsize fun _ _ => rfl, fun _ => by rw [hnode]; rfl⟩
        · rw [steps_symlink hparent hsize hnode fun hend => hrest hend.1]
          exact hjump _ _ _ h
      · rw [steps_directory hparent hsize hnode]
        exact steps_noFollow hjump rest h
      · exact ⟨_, steps_last hparent hsize fun _ _ => rfl, id⟩

theorem walk_noFollow : ∀ (links : Nat) (names : List Name) {start place : Path},
    v.walk true links start names = .ok place →
      ∃ entry, v.walk false links start names = .ok entry ∧
        ((v.node? place).isSome = true → (v.node? entry).isSome = true)
  | 0, names, _, _, h => steps_noFollow (fun _ _ _ h => by cases h) names h
  | links + 1, names, _, _, h =>
      steps_noFollow (fun _ names _ h => walk_noFollow links names h) names h

/-- A walk that does not follow a last link ends at the last name. -/
theorem steps_getLast {name : Name} (hname : name ≠ parentName)
    {jump : Path → List Name → Except Reason Path}
    (hjump : ∀ start names place, jump start (names ++ [name]) = .ok place →
      place.getLast? = some name) :
    ∀ (names : List Name) {start place : Path},
      v.steps false jump start (names ++ [name]) = .ok place → place.getLast? = some name
  | [], start, place, h => by
      obtain ⟨heq, -⟩ | ⟨-, -, h⟩ := steps_cons h
      · exact absurd heq hname
      obtain ⟨target, -, hgo, -⟩ | ⟨-, h⟩ | ⟨-, -, -, rfl⟩ := h
      · exact absurd ⟨rfl, rfl⟩ hgo
      · rw [← Except.ok.inj h, List.getLast?_concat]
      · rw [List.getLast?_concat]
  | first :: names, start, place, h => by
      rw [List.cons_append] at h
      obtain ⟨-, h⟩ | ⟨-, -, h⟩ := steps_cons h
      · exact steps_getLast hname hjump names h
      obtain ⟨target, -, -, h⟩ | ⟨-, h⟩ | ⟨-, -, hnil, -⟩ := h
      · rw [← List.append_assoc] at h
        exact hjump _ _ _ h
      · exact steps_getLast hname hjump names h
      · exact absurd hnil (List.append_ne_nil_of_right_ne_nil _ (by simp))

theorem walk_getLast {name : Name} (hname : name ≠ parentName) :
    ∀ (links : Nat) (names : List Name) {start place : Path},
      v.walk false links start (names ++ [name]) = .ok place → place.getLast? = some name
  | 0, names, _, _, h => steps_getLast hname (fun _ _ _ h => by cases h) names h
  | links + 1, names, _, _, h =>
      steps_getLast hname (fun _ names _ h => walk_getLast hname links names h) names h

theorem locate_getLast {p : JsString} {names : List Name} {name : Name}
    (hp : components (scalars p) = names ++ [name]) (hname : name ≠ parentName) {place : Path}
    (h : v.locate false p = .ok place) : place.getLast? = some name := by
  rw [locate, hp] at h
  exact walk_getLast hname linkMax names h

/-- A path string that leads somewhere is about a directory entry. -/
theorem locate_noFollow {p : JsString} {place : Path} (h : v.locate true p = .ok place) :
    ∃ entry, v.locate false p = .ok entry := by
  obtain ⟨entry, hentry, -⟩ := walk_noFollow linkMax _ h
  exact ⟨entry, hentry⟩

/-- A path string that leads to an object is about an entry that is there. -/
theorem locate_entry {p : JsString} {place : Path} {node : Node} (h : v.locate true p = .ok place)
    (hnode : v.node? place = some node) :
    ∃ entry node', v.locate false p = .ok entry ∧ v.node? entry = some node' := by
  obtain ⟨entry, hentry, hsome⟩ := walk_noFollow linkMax _ h
  obtain ⟨node', hnode'⟩ := Option.isSome_iff_exists.mp (hsome (by rw [hnode]; rfl))
  exact ⟨entry, node', hentry, hnode'⟩

/-! ## Entries -/

/-- Every name is one that a directory entry can have. -/
def Legal (v : Volume) : Prop := ∀ e ∈ v.nodes.entries, ∀ name ∈ e.1, Name.Legal name

theorem node?_concat (dir : Path) (name : Name) :
    v.node? (dir ++ [name]) = v.nodes.find? (dir ++ [name]) :=
  if_neg (List.append_ne_nil_of_right_ne_nil dir (List.cons_ne_nil _ _))

/-- The entries of a directory are the objects below it. -/
theorem mem_children {dir : Path} {entry : Dirent} :
    entry ∈ v.children dir ↔
      ∃ name node, v.node? (dir ++ [name]) = some node ∧ entry = ⟨Name.text name, node.type⟩ := by
  rw [children, List.mem_filterMap]
  constructor
  · rintro ⟨⟨path, node⟩, hmem, h⟩
    cases hlast : path.getLast? with
    | none => simp [hlast] at h
    | some name =>
        simp only [hlast] at h
        split at h
        · rename_i hdir
          have hpath : dir ++ [name] = path := hdir ▸ List.dropLast_append_getLast? name hlast
          refine ⟨name, node, ?_, (Option.some.inj h).symm⟩
          rw [node?_concat, hpath]
          exact Table.mem_entries_iff.mp hmem
        · cases h
  · rintro ⟨name, node, hnode, rfl⟩
    rw [node?_concat] at hnode
    refine ⟨(dir ++ [name], node), Table.mem_entries_iff.mpr hnode, ?_⟩
    simp

theorem Legal.concat (h : v.Legal) {dir : Path} {name : Name} {node : Node}
    (hnode : v.node? (dir ++ [name]) = some node) : Name.Legal name := by
  rw [node?_concat] at hnode
  exact h _ (Table.mem_entries_iff.mpr hnode) name (by simp)

theorem Legal.below (h : v.Legal) {dir names : Path} {node : Node} (hne : names ≠ [])
    (hnode : v.node? (dir ++ names) = some node) : ∀ name ∈ names, Name.Legal name := by
  rw [node?, if_neg (List.append_ne_nil_of_right_ne_nil _ hne)] at hnode
  exact fun name hname =>
    h _ (Table.mem_entries_iff.mpr hnode) name (List.mem_append_right _ hname)

/-! ## Calls on paths -/

theorem lookup_ok {follow : Bool} {syscall : String} {p : JsString} {place : Path} {node : Node} :
    v.lookup follow syscall p = .ok (place, node) ↔
      v.locate follow p = .ok place ∧ v.node? place = some node := by
  unfold lookup
  cases hlocate : v.locate follow p with
  | error r => simp
  | ok path =>
      dsimp only
      cases hnode : v.node? path with
      | none =>
          simp only [reduceCtorEq, false_iff, not_and, Except.ok.injEq]
          rintro rfl
          simp [hnode]
      | some node' =>
          simp only [Except.ok.injEq, Prod.mk.injEq]
          constructor
          · rintro ⟨rfl, rfl⟩
            exact ⟨rfl, hnode⟩
          · rintro ⟨rfl, h⟩
            exact ⟨rfl, Option.some.inj (hnode.symm.trans h)⟩

theorem lookup_map {α : Type} {follow : Bool} (syscall : String) {p : JsString}
    (f : Path × Node → α) {a : α} :
    (v.lookup follow syscall p).map f = .ok a ↔
      ∃ place node, v.locate follow p = .ok place ∧ v.node? place = some node ∧
        f (place, node) = a := by
  constructor
  · intro h
    cases hlookup : v.lookup follow syscall p with
    | error e =>
        rw [hlookup] at h
        cases h
    | ok found =>
        rw [hlookup] at h
        obtain ⟨hlocate, hnode⟩ := lookup_ok.mp hlookup
        exact ⟨found.1, found.2, hlocate, hnode, Except.ok.inj h⟩
  · rintro ⟨place, node, hlocate, hnode, rfl⟩
    rw [lookup_ok.mpr ⟨hlocate, hnode⟩]
    rfl

end Volume

section
variable {v v' : Volume} {p : JsString}

theorem perform_realpath {a : JsString} : perform (.realpath p) v = (.ok a, v') ↔
    v = v' ∧ ∃ place node, v.locate true p = .ok place ∧ v.node? place = some node ∧
      place.text = a := by
  rw [← Volume.lookup_map "realpath" fun found => Path.text found.1]
  exact (Prod.ext_iff).trans and_comm

theorem perform_lstat {a : Stats} : perform (.lstat p) v = (.ok a, v') ↔
    v = v' ∧ ∃ place node, v.locate false p = .ok place ∧ v.node? place = some node ∧
      node.stats = a := by
  rw [← Volume.lookup_map "lstat" fun found => found.2.stats]
  exact (Prod.ext_iff).trans and_comm

theorem perform_openRead {a : Handle} : perform (.openRead p) v = (.ok a, v') ↔
    v = v' ∧ v.locate true p = .ok a.path ∧ v.node? a.path = some a.node := by
  rw [Prod.ext_iff, and_comm]
  refine and_congr Iff.rfl ((Volume.lookup_map "open" _).trans ⟨?_, fun h => ⟨a.path, a.node, h.1, h.2, rfl⟩⟩)
  rintro ⟨place, node, hlocate, hnode, rfl⟩
  exact ⟨hlocate, hnode⟩

theorem perform_read {handle : Handle} {position length : Nat} {a : Bytes}
    (h : perform (.read handle position length) v = (.ok a, v')) :
    ∃ bytes mode, handle.node = .file bytes mode ∧ (bytes.drop position).take length = a := by
  simp only [perform, Handle.bytes] at h
  have hbytes := congrArg Prod.fst h
  cases hnode : handle.node with
  | file bytes mode =>
      rw [hnode] at hbytes
      exact ⟨bytes, mode, rfl, Except.ok.inj hbytes⟩
  | directory =>
      rw [hnode] at hbytes
      cases hbytes
  | symlink target =>
      rw [hnode] at hbytes
      cases hbytes
  | other =>
      rw [hnode] at hbytes
      cases hbytes

theorem perform_readdir {a : List Dirent} : perform (.readdir p) v = (.ok a, v') ↔
    v = v' ∧ ∃ dir, v.locate true p = .ok dir ∧ v.node? dir = some .directory ∧
      v.children dir = a := by
  rw [Prod.ext_iff, and_comm]
  refine and_congr Iff.rfl ?_
  simp only [perform]
  constructor
  · intro h
    split at h
    · cases h
    · rename_i path hlookup
      obtain ⟨hlocate, hnode⟩ := Volume.lookup_ok.mp hlookup
      exact ⟨path, hlocate, hnode, Except.ok.inj h⟩
    · cases h
  · rintro ⟨dir, hlocate, hnode, rfl⟩
    rw [Volume.lookup_ok.mpr ⟨hlocate, hnode⟩]

end

/-- A last name, when it is short enough. -/
theorem steps_single (v : Volume) (follow : Bool) (jump : Path → List Name → Except Reason Path)
    (dir : Path) {name : Name} (hname : name ≠ parentName) :
    (nameMax < name.size ∧ v.steps follow jump dir [name] = .error .ENAMETOOLONG) ∨
    (name.size ≤ nameMax ∧
      ((∀ target, v.node? (dir ++ [name]) = some (.symlink target) → follow = false) →
        v.steps follow jump dir [name] = .ok (dir ++ [name]))) := by
  by_cases hsize : nameMax < name.size
  · refine .inl ⟨hsize, ?_⟩
    rw [Volume.steps, if_neg hname, if_pos hsize]
  · exact .inr ⟨by omega, Volume.steps_last hname (by omega)⟩

end Benchhand.Posix
