/-
Benchhand.Filesystem.FootprintTheorems — where an operation works.

The operation of a write or a patch has to do with two entries of one directory:
its target and its staged file (`Spot`). Its calls are of a few kinds (`Own`),
and what such a call answers and changes is decided by these entries: two
volumes that have the same there cannot be told apart (`Own.mirrors`). Nothing
else is changed, and no directory and no symbolic link.
-/
import Benchhand.Filesystem.Concurrent
import Benchhand.Filesystem.ContainmentTheorems

namespace Benchhand.Filesystem

open Text Posix Process

/-! ## Spots -/

/-- The entries of a directory that an operation works at. -/
structure Spot where
  dir : Path
  name : JsString
  temp : JsString
  plainDir : dir.Plain
  plainName : Plain name
  plainTemp : Plain temp
  apart : scalars temp ≠ scalars name

namespace Spot

def place (x : Spot) : Path := x.dir ++ [scalars x.name]

def staged (x : Spot) : Path := x.dir ++ [scalars x.temp]

theorem staged_ne_place (x : Spot) : x.staged ≠ x.place := fun h =>
  x.apart (List.singleton_inj.mp (List.append_cancel_left h))

theorem place_ne_nil (x : Spot) : x.place ≠ [] := by simp [place]

theorem staged_ne_nil (x : Spot) : x.staged ≠ [] := by simp [staged]

end Spot

/-- Nothing is there, or a file. -/
def FreeOrFile (v : Volume) (path : Path) : Prop :=
  v.node? path = none ∨ ∃ bytes mode, v.node? path = some (.file bytes mode)

def IsFile (v : Volume) (path : Path) : Prop :=
  ∃ bytes mode, v.node? path = some (.file bytes mode)

/-- The directories and the symbolic links are the same. -/
structure SameWays (v v' : Volume) : Prop where
  keeps : v.KeepsWays v'
  kept : v'.KeepsWays v

section
variable {v v' v'' : Volume} {path : Path}

theorem SameWays.refl (v : Volume) : SameWays v v := ⟨.refl v, .refl v⟩

theorem SameWays.symm (h : SameWays v v') : SameWays v' v := ⟨h.kept, h.keeps⟩

theorem SameWays.trans (h : SameWays v v') (h' : SameWays v' v'') : SameWays v v'' where
  keeps := ⟨fun path hpath => h'.keeps.directory path (h.keeps.directory path hpath),
    fun path link hpath => h'.keeps.symlink path link (h.keeps.symlink path link hpath)⟩
  kept := ⟨fun path hpath => h.kept.directory path (h'.kept.directory path hpath),
    fun path link hpath => h.kept.symlink path link (h'.kept.symlink path link hpath)⟩

/-- A file comes, goes or changes. -/
theorem sameWays_of_file (hframe : ∀ q, q ≠ path → v'.node? q = v.node? q)
    (h : FreeOrFile v path) (h' : FreeOrFile v' path) : SameWays v v' :=
  ⟨Volume.keepsWays_of_file hframe h,
    Volume.keepsWays_of_file (fun q hq => (hframe q hq).symm) h'⟩

theorem SameWays.stands (h : SameWays v v') {dir : Path} (hdir : v.Stands dir) : v'.Stands dir :=
  hdir.keeps h.keeps

theorem IsFile.freeOrFile (h : IsFile v path) : FreeOrFile v path := .inr h

theorem FreeOrFile.unlinked (h : FreeOrFile v path) : Unlinked v path := by
  intro link hlink
  obtain hfree | ⟨bytes, mode, hfile⟩ := h
  · rw [hfree] at hlink
    cases hlink
  · rw [hfile] at hlink
    cases hlink

end

/-! ## Changes -/

/-- What a call of an operation can do to two volumes at once. -/
inductive Changes (x : Spot) (v u : Volume) : Volume → Volume → Prop
  | none : Changes x v u v u
  | put {path : Path} (hpath : path = x.place ∨ path = x.staged) (h : FreeOrFile v path)
      (h' : FreeOrFile u path) (bytes : Bytes) (mode : Mode) :
      Changes x v u (v.put path (.file bytes mode)) (u.put path (.file bytes mode))
  | erase (h : FreeOrFile v x.staged) (h' : FreeOrFile u x.staged) :
      Changes x v u (v.erase x.staged) (u.erase x.staged)
  | move (h : FreeOrFile v x.staged) (h' : FreeOrFile u x.staged) (hplace : FreeOrFile v x.place)
      (hplace' : FreeOrFile u x.place) (bytes : Bytes) (mode : Mode) :
      Changes x v u ((v.erase x.staged).put x.place (.file bytes mode))
        ((u.erase x.staged).put x.place (.file bytes mode))

section
variable {x : Spot} {v u v' u' : Volume} {path : Path}

theorem Changes.symm (h : Changes x v u v' u') : Changes x u v u' v' := by
  cases h with
  | none => exact .none
  | put hpath h h' bytes mode => exact .put hpath h' h bytes mode
  | erase h h' => exact .erase h' h
  | move h h' hplace hplace' bytes mode => exact .move h' h hplace' hplace bytes mode

theorem Changes.umask (h : Changes x v u v' u') : v'.umask = v.umask := by
  cases h <;> rfl

theorem ne_nil_of_spot (hpath : path = x.place ∨ path = x.staged) : path ≠ [] := by
  obtain rfl | rfl := hpath
  · exact x.place_ne_nil
  · exact x.staged_ne_nil

/-- Other entries stay. -/
theorem Changes.frame (h : Changes x v u v' u') (hplace : path ≠ x.place)
    (hstaged : path ≠ x.staged) : v'.node? path = v.node? path := by
  cases h with
  | none => rfl
  | put hpath =>
      rw [Volume.node?_put (ne_nil_of_spot hpath), if_neg]
      rintro rfl
      exact hpath.elim hplace hstaged
  | erase => rw [Volume.node?_erase x.staged_ne_nil, if_neg hstaged]
  | move =>
      rw [Volume.node?_put x.place_ne_nil, if_neg hplace, Volume.node?_erase x.staged_ne_nil,
        if_neg hstaged]

/-- An entry that was the same is the same again. -/
theorem Changes.agree (h : Changes x v u v' u') (hsame : v.node? path = u.node? path) :
    v'.node? path = u'.node? path := by
  cases h with
  | none => exact hsame
  | put hpath =>
      rw [Volume.node?_put (ne_nil_of_spot hpath), Volume.node?_put (ne_nil_of_spot hpath), hsame]
  | erase => rw [Volume.node?_erase x.staged_ne_nil, Volume.node?_erase x.staged_ne_nil, hsame]
  | move =>
      rw [Volume.node?_put x.place_ne_nil, Volume.node?_put x.place_ne_nil,
        Volume.node?_erase x.staged_ne_nil, Volume.node?_erase x.staged_ne_nil, hsame]

theorem sameWays_put (hne : path ≠ []) (h : FreeOrFile v path) (bytes : Bytes) (mode : Mode) :
    SameWays v (v.put path (.file bytes mode)) := by
  refine sameWays_of_file (fun q hq => ?_) h (.inr ⟨bytes, mode, ?_⟩)
  · rw [Volume.node?_put hne, if_neg hq]
  · rw [Volume.node?_put hne, if_pos rfl]

theorem sameWays_erase (hne : path ≠ []) (h : FreeOrFile v path) : SameWays v (v.erase path) := by
  refine sameWays_of_file (fun q hq => ?_) h (.inl ?_)
  · rw [Volume.node?_erase hne, if_neg hq]
  · rw [Volume.node?_erase hne, if_pos rfl]

theorem Changes.sameWays (h : Changes x v u v' u') : SameWays v v' := by
  cases h with
  | none => exact .refl v
  | put hpath h h' bytes mode => exact sameWays_put (ne_nil_of_spot hpath) h bytes mode
  | erase h h' => exact sameWays_erase x.staged_ne_nil h
  | move h h' hplace hplace' bytes mode =>
      refine (sameWays_erase x.staged_ne_nil h).trans (sameWays_put x.place_ne_nil ?_ bytes mode)
      have hkept : (v.erase x.staged).node? x.place = v.node? x.place := by
        rw [Volume.node?_erase x.staged_ne_nil, if_neg x.staged_ne_place.symm]
      unfold FreeOrFile
      rwa [hkept]

end

/-! ## The calls of an operation -/

/-- The calls that an operation makes on a volume. -/
inductive Own (x : Spot) (v : Volume) : Call → Prop
  | lstat : Own x v (.lstat (target x.dir [x.name]))
  | openTarget (h : Unlinked v x.place) : Own x v (.openRead (target x.dir [x.name]))
  | openParent : Own x v (.openRead x.dir.text)
  | read (handle : Handle) (position length : Nat) : Own x v (.read handle position length)
  | readFile (handle : Handle) : Own x v (.readFile handle)
  | sync (handle : Handle) : Own x v (.sync handle)
  | close (handle : Handle) : Own x v (.close handle)
  | create (mode : Mode) : Own x v (.openExclusive (target x.dir [x.temp]) mode)
  | chmod {handle : Handle} (h : handle.path = x.staged) (mode : Mode) :
      Own x v (.chmod handle mode)
  | writeFile {handle : Handle} (h : handle.path = x.staged) (content : Bytes) :
      Own x v (.writeFile handle content)
  | link (h : IsFile v x.staged) :
      Own x v (.link (target x.dir [x.temp]) (target x.dir [x.name]))
  | rename (h : IsFile v x.staged) (hplace : FreeOrFile v x.place) :
      Own x v (.rename (target x.dir [x.temp]) (target x.dir [x.name]))
  | rm (h : IsFile v x.staged) : Own x v (.rm (target x.dir [x.temp]))

/-- Two volumes have the same where the operation works. -/
structure Sees (x : Spot) (v u : Volume) : Prop where
  stands : v.Stands x.dir
  stands' : u.Stands x.dir
  place : v.node? x.place = u.node? x.place
  staged : v.node? x.staged = u.node? x.staged
  umask : v.umask = u.umask

section
variable {x : Spot} {v u : Volume} {c : Call}

/-- Where the path string of an entry of the directory leads. -/
theorem locate_entry {dir : Path} (h : v.Stands dir) {name : JsString} (hname : Plain name)
    {follow : Bool} (hlink : follow = true → Unlinked v (dir ++ [scalars name])) :
    v.locate follow (target dir [name]) =
      if nameMax < Name.size (scalars name) then .error .ENAMETOOLONG
      else .ok (dir ++ [scalars name]) := by
  have hcomponents : components (scalars (target dir [name])) = dir ++ [scalars name] :=
    components_target h.plain fun s hs => List.mem_singleton.mp hs ▸ hname
  obtain ⟨jump, hjump⟩ := Volume.locate_components h hcomponents follow
  rw [hjump]
  obtain ⟨hsize, hlong⟩ | ⟨hsize, hshort⟩ :=
    steps_single v follow jump dir hname.name.ne_dotDot
  · rw [if_pos hsize, hlong]
  · rw [if_neg (by omega), hshort]
    intro link hnode
    cases follow with
    | false => rfl
    | true => exact absurd hnode (hlink rfl link)

/-- The same object, under the name of the directory's entry. -/
theorem lookup_entry {dir : Path} (h : v.Stands dir) (h' : u.Stands dir) {name : JsString}
    (hname : Plain name) {follow : Bool}
    (hlink : follow = true → Unlinked v (dir ++ [scalars name]))
    (hsame : v.node? (dir ++ [scalars name]) = u.node? (dir ++ [scalars name]))
    (syscall : String) :
    v.lookup follow syscall (target dir [name]) = u.lookup follow syscall (target dir [name]) := by
  have hlink' (hfollow : follow = true) : Unlinked u (dir ++ [scalars name]) := by
    intro link hnode
    exact hlink hfollow link (hsame.trans hnode)
  unfold Volume.lookup
  rw [locate_entry h hname hlink, locate_entry h' hname hlink']
  split
  · rfl
  · rename_i place hplace
    split at hplace
    · cases hplace
    · obtain rfl := Except.ok.inj hplace
      rw [hsame]

theorem Sees.symm (h : Sees x v u) : Sees x u v :=
  ⟨h.stands', h.stands, h.place.symm, h.staged.symm, h.umask.symm⟩

theorem freeOrFile_congr {path : Path} (hsame : v.node? path = u.node? path)
    (h : FreeOrFile v path) : FreeOrFile u path := by
  unfold FreeOrFile at h ⊢
  rwa [← hsame]

/-- The answer and the change are the same on both volumes. -/
def Mirrors (x : Spot) (v u : Volume) (c : Call) (fault : Option Fault) : Prop :=
  (respond fault c v).1 = (respond fault c u).1 ∧
    Changes x v u (respond fault c v).2 (respond fault c u).2

theorem mirrors_of_readOnly {fault : Option Fault} (hc : ReadOnly c)
    (hanswer : (perform c v).1 = (perform c u).1) : Mirrors x v u c fault := by
  cases fault with
  | none =>
      refine ⟨hanswer, ?_⟩
      cases c <;> first | exact .none | exact absurd hc id
  | some fault => cases c <;> first | exact ⟨rfl, .none⟩ | exact absurd hc id

/-- A call that fails without a trace. -/
theorem mirrors_of_fault (fault : Fault) (hc : ∀ handle content, c ≠ .writeFile handle content) :
    Mirrors x v u c (some fault) := by
  cases c with
  | writeFile handle content => exact absurd rfl (hc handle content)
  | _ => exact ⟨rfl, .none⟩

section
variable (hsees : Sees x v u)
include hsees

theorem Sees.locate_temp : ∃ found, v.locate false (target x.dir [x.temp]) = found ∧
    u.locate false (target x.dir [x.temp]) = found ∧ found =
      if nameMax < Name.size (scalars x.temp) then .error .ENAMETOOLONG else .ok x.staged :=
  ⟨_, locate_entry hsees.stands x.plainTemp Bool.noConfusion,
    locate_entry hsees.stands' x.plainTemp Bool.noConfusion, rfl⟩

theorem Sees.locate_name : ∃ found, v.locate false (target x.dir [x.name]) = found ∧
    u.locate false (target x.dir [x.name]) = found ∧ found =
      if nameMax < Name.size (scalars x.name) then .error .ENAMETOOLONG else .ok x.place :=
  ⟨_, locate_entry hsees.stands x.plainName Bool.noConfusion,
    locate_entry hsees.stands' x.plainName Bool.noConfusion, rfl⟩

theorem Sees.lookup_temp (syscall : String) :
    v.lookup false syscall (target x.dir [x.temp]) =
      u.lookup false syscall (target x.dir [x.temp]) :=
  lookup_entry hsees.stands hsees.stands' x.plainTemp Bool.noConfusion hsees.staged syscall

theorem changes_edit {handle : Handle} (hpath : handle.path = x.staged)
    {f : Bytes → Mode → Node} (hf : ∀ bytes mode, ∃ bytes' mode', f bytes mode = .file bytes' mode') :
    Changes x v u (v.edit handle f) (u.edit handle f) := by
  unfold Volume.edit
  rw [hpath, ← hsees.staged]
  split
  · rename_i bytes mode hnode
    obtain ⟨bytes', mode', hfile⟩ := hf bytes mode
    rw [hfile]
    exact .put (.inr rfl) (.inr ⟨bytes, mode, hnode⟩)
      (.inr ⟨bytes, mode, hsees.staged.symm.trans hnode⟩) bytes' mode'
  · exact .none

theorem mirrors_create (mode : Mode) :
    Mirrors x v u (.openExclusive (target x.dir [x.temp]) mode) none := by
  obtain ⟨found, hlocate, hlocate', rfl⟩ := hsees.locate_temp
  unfold Mirrors respond
  simp only [perform, Volume.openExclusive, hlocate, hlocate']
  by_cases hsize : nameMax < Name.size (scalars x.temp)
  · simp only [if_pos hsize]
    exact ⟨rfl, .none⟩
  · simp only [if_neg hsize, ← hsees.staged, hsees.umask]
    cases hnode : v.node? x.staged with
    | some node => exact ⟨rfl, .none⟩
    | none =>
        exact ⟨rfl, .put (.inr rfl) (.inl hnode) (.inl (hsees.staged.symm.trans hnode)) _ _⟩

theorem mirrors_link (h : IsFile v x.staged) :
    Mirrors x v u (.link (target x.dir [x.temp]) (target x.dir [x.name])) none := by
  obtain ⟨found, hlocate, hlocate', rfl⟩ := hsees.locate_name
  unfold Mirrors respond
  simp only [perform, Volume.link, hlocate, hlocate', ← hsees.lookup_temp]
  by_cases hsize : nameMax < Name.size (scalars x.name)
  · simp only [if_pos hsize]
    exact ⟨rfl, .none⟩
  simp only [if_neg hsize, ← hsees.place]
  cases hnode : v.node? x.place with
  | some node => exact ⟨rfl, .none⟩
  | none =>
      cases hfound : v.lookup false "link" (target x.dir [x.temp]) with
      | error e => exact ⟨rfl, .none⟩
      | ok found =>
          obtain ⟨place, node⟩ := found
          obtain ⟨hplace, hfile⟩ := Volume.lookup_ok.mp hfound
          obtain rfl := locate_name hsees.stands x.plainTemp hplace
          obtain ⟨bytes, mode, hstaged⟩ := h
          obtain rfl := Option.some.inj (hfile.symm.trans hstaged)
          exact ⟨rfl, .put (.inl rfl) (.inl hnode) (.inl (hsees.place.symm.trans hnode)) _ _⟩

theorem mirrors_rename (h : IsFile v x.staged) (hfree : FreeOrFile v x.place) :
    Mirrors x v u (.rename (target x.dir [x.temp]) (target x.dir [x.name])) none := by
  obtain ⟨found, hlocate, hlocate', rfl⟩ := hsees.locate_name
  unfold Mirrors respond
  simp only [perform, Volume.rename, hlocate, hlocate', ← hsees.lookup_temp]
  cases hfound : v.lookup false "rename" (target x.dir [x.temp]) with
  | error e => exact ⟨rfl, .none⟩
  | ok found =>
      obtain ⟨place, node⟩ := found
      obtain ⟨hplace, hfile⟩ := Volume.lookup_ok.mp hfound
      obtain rfl := locate_name hsees.stands x.plainTemp hplace
      have hstaged := h
      obtain ⟨bytes, mode, hnode⟩ := h
      obtain rfl := Option.some.inj (hfile.symm.trans hnode)
      by_cases hsize : nameMax < Name.size (scalars x.name)
      · simp only [if_pos hsize]
        exact ⟨rfl, .none⟩
      simp only [if_neg hsize, ← hsees.place]
      split
      · exact ⟨rfl, .none⟩
      · exact ⟨rfl, .move hstaged.freeOrFile
          (freeOrFile_congr hsees.staged hstaged.freeOrFile) hfree
          (freeOrFile_congr hsees.place hfree) bytes mode⟩

theorem mirrors_rm (h : IsFile v x.staged) : Mirrors x v u (.rm (target x.dir [x.temp])) none := by
  obtain ⟨found, hlocate, hlocate', rfl⟩ := hsees.locate_temp
  have hfile := h
  obtain ⟨bytes, mode, hnode⟩ := h
  unfold Mirrors respond
  simp only [perform, Volume.rm, hlocate, hlocate']
  by_cases hsize : nameMax < Name.size (scalars x.temp)
  · simp only [if_pos hsize]
    exact ⟨rfl, .none⟩
  · simp only [if_neg hsize, ← hsees.staged, hnode]
    exact ⟨rfl, .erase hfile.freeOrFile (freeOrFile_congr hsees.staged hfile.freeOrFile)⟩

/-- A call of the operation is answered alike, and changes the same. -/
theorem Own.mirrors (hown : Own x v c) (fault : Option Fault) : Mirrors x v u c fault := by
  have hread {path : JsString} {follow : Bool} {syscall : String} {β : Type}
      {f : Path × Node → β}
      (h : v.lookup follow syscall path = u.lookup follow syscall path) :
      (v.lookup follow syscall path).map f = (u.lookup follow syscall path).map f := by rw [h]
  have hparent : v.lookup true "open" x.dir.text = u.lookup true "open" x.dir.text := by
    have hlocate := Volume.locate_text (hsees.stands.lands true)
    have hlocate' := Volume.locate_text (hsees.stands'.lands true)
    rw [Volume.lookup_ok.mpr ⟨hlocate, hsees.stands.node⟩,
      Volume.lookup_ok.mpr ⟨hlocate', hsees.stands'.node⟩]
  cases hown with
  | lstat =>
      exact mirrors_of_readOnly trivial (hread (lookup_entry hsees.stands hsees.stands' x.plainName
        Bool.noConfusion hsees.place "lstat"))
  | openTarget h =>
      exact mirrors_of_readOnly trivial (hread (lookup_entry hsees.stands hsees.stands' x.plainName
        (fun _ => h) hsees.place "open"))
  | openParent => exact mirrors_of_readOnly trivial (hread hparent)
  | read handle position length => exact mirrors_of_readOnly trivial rfl
  | readFile handle => exact mirrors_of_readOnly trivial rfl
  | sync handle => exact mirrors_of_readOnly trivial rfl
  | close handle => exact mirrors_of_readOnly trivial rfl
  | create mode =>
      cases fault with
      | none => exact mirrors_create hsees mode
      | some fault => exact mirrors_of_fault fault fun _ _ => Call.noConfusion
  | chmod hpath mode =>
      cases fault with
      | none => exact ⟨rfl, changes_edit hsees hpath fun bytes _ => ⟨bytes, mode, rfl⟩⟩
      | some fault => exact mirrors_of_fault fault fun _ _ => Call.noConfusion
  | writeFile hpath content =>
      cases fault with
      | none => exact ⟨rfl, changes_edit hsees hpath fun _ mode => ⟨content, mode, rfl⟩⟩
      | some fault => exact ⟨rfl, changes_edit hsees hpath fun _ mode => ⟨_, mode, rfl⟩⟩
  | link h =>
      cases fault with
      | none => exact mirrors_link hsees h
      | some fault => exact mirrors_of_fault fault fun _ _ => Call.noConfusion
  | rename h hplace =>
      cases fault with
      | none => exact mirrors_rename hsees h hplace
      | some fault => exact mirrors_of_fault fault fun _ _ => Call.noConfusion
  | rm h =>
      cases fault with
      | none => exact mirrors_rm hsees h
      | some fault => exact mirrors_of_fault fault fun _ _ => Call.noConfusion

end

end

end Benchhand.Filesystem
