/-
Benchhand.Filesystem.TerritoryTheorems — each key has its own files.

The files that operations of one key work at are the target and the staged files
for any uuid (`Service.Territory`). Two keys have none of these in common
(`territory_inj`): a name that was asked for contains no uuid, a staged name
contains one, and with uuids of one length it gives back the name it is for. So
an operation is seen by the operations of its own key only (`within_operation`).
-/
import Benchhand.Filesystem.OperationCallsTheorems
import Benchhand.Filesystem.PreparationTheorems
import Benchhand.Process.Lanes
import Benchhand.Workspace.ManagedRootTheorems

namespace Benchhand.Filesystem

open Text Posix Process
open Workspace (joinSegments_cons_of_ne_nil wellFormed_of_mem_splitOn)

/-! ## Names that are asked for -/

/-- A name that a request path can end with. -/
structure Requested (uuids : List JsString) (name : JsString) : Prop where
  plain : Plain name
  wellFormed : Text.WellFormed name
  fresh : ∀ uuid ∈ uuids, ¬ uuid <:+: name

theorem backslash_notMem_units {c : Char} (h : c ≠ '\\') : ch '\\' ∉ units c := by
  have hcode : (ch '\\').toNat = 0x5C := by decide
  have hc : c.toNat ≠ 0x5C := fun heq => h (Char.toNat_inj.mp heq)
  have hlt := toNat_lt_or c
  have hne {n : Nat} (hn : n ≠ 0x5C) (hlt : n < 0x10000) : ch '\\' ≠ UInt16.ofNat n := by
    intro heq
    rw [heq, toNat_ofNat16 hlt] at hcode
    exact hn hcode
  intro hmem
  by_cases hbmp : c.toNat < 0x10000
  · rw [units_bmp hbmp, List.mem_singleton] at hmem
    exact hne hc hbmp hmem
  · rw [units_astral hbmp, List.mem_cons, List.mem_singleton] at hmem
    obtain hmem | hmem := hmem
    · exact hne (by omega) (by omega) hmem
    · exact hne (by omega) (by omega) hmem

theorem map_portableUnit_units (c : Char) :
    (units c).map portableUnit = units (if c = '\\' then '/' else c) := by
  split
  · rename_i h
    subst h
    decide
  · rename_i h
    refine (List.map_congr_left fun u hu => ?_).trans (List.map_id _)
    exact if_neg fun heq : u = ch '\\' => backslash_notMem_units h (heq ▸ hu)

theorem wellFormed_portable {input : JsString} (h : WellFormed input) :
    WellFormed (input.map portableUnit) := by
  obtain ⟨cs, rfl⟩ := (wellFormed_iff input).mp h
  refine (wellFormed_iff _).mpr ⟨cs.map fun c => if c = '\\' then '/' else c, ?_⟩
  rw [List.map_flatMap, List.flatMap_map]
  exact congrArg (fun f => cs.flatMap f) (funext map_portableUnit_units)

/-- What separators become is a separator. -/
theorem eq_of_portableUnit {u u' : UInt16} (h : portableUnit u = u') (hu' : u' ≠ slash) :
    u = u' := by
  unfold portableUnit at h
  split at h
  · exact absurd h.symm hu'
  · exact h

theorem infix_of_portable {input s : JsString} (hs : slash ∉ s)
    (h : s <:+: input.map portableUnit) : s <:+: input := by
  obtain ⟨before, after, heq⟩ := h
  obtain ⟨l, after', rfl, hl, rfl⟩ := List.map_eq_append_iff.mp heq.symm
  obtain ⟨before', s', rfl, rfl, hs'⟩ := List.map_eq_append_iff.mp hl
  obtain rfl : s' = s := by
    refine (List.map_id s').symm.trans (Eq.trans (List.map_congr_left fun u hu => ?_) hs')
    refine (eq_of_portableUnit rfl ?_)
    intro hslash
    exact hs (hs' ▸ hslash ▸ List.mem_map_of_mem hu)
  exact ⟨before', after', rfl⟩

theorem infix_joinSegments {s : JsString} {segs : List JsString} (hs : s ∈ segs) :
    s <:+: joinSegments segs := by
  induction segs with
  | nil => exact absurd hs List.not_mem_nil
  | cons t segs ih =>
      obtain rfl | hs := List.mem_cons.mp hs
      · obtain heq | heq := joinSegments_cons s segs
        · exact heq.symm ▸ List.infix_rfl
        · exact heq ▸ (List.prefix_append _ _).isInfix
      · rw [joinSegments_cons_of_ne_nil t (List.ne_nil_of_mem hs)]
        exact (ih hs).trans ((List.suffix_cons _ _).trans (List.suffix_append _ _)).isInfix

/-- The last name of a request path is a part of it. -/
theorem mem_of_normalizeRelativePath {input : JsString} {segs : List JsString} {name : JsString}
    (hsegments : ∀ s ∈ segs ++ [name], Segment s)
    (h : normalizeRelativePath input false = .ok (portable (segs ++ [name]))) :
    name ∈ (input.map portableUnit).splitOn slash := by
  have hjoin : joinSegments (requestSegments input) = joinSegments (segs ++ [name]) := by
    rw [normalizeRelativePath_eq] at h
    simp only [Bool.false_eq_true, if_false] at h
    split at h
    · cases h
    split at h
    · cases h
    split at h
    · cases h
    split at h
    · cases h
    · rw [Except.ok.inj h, portable, if_neg (List.append_ne_nil_of_right_ne_nil segs (List.cons_ne_nil name []))]
  have hrequest : requestSegments input = segs ++ [name] := by
    have hplain : ∀ s ∈ requestSegments input, s ≠ [] ∧ slash ∉ s := by
      intro s hs
      obtain ⟨hpart, hne⟩ := List.mem_filter.mp hs
      rw [Bool.and_eq_true, decide_eq_true_eq] at hne
      exact ⟨hne.1, not_mem_of_mem_splitOn s hpart⟩
    rw [← segments_joinSegments hplain, hjoin]
    exact segments_joinSegments fun s hs => ⟨(hsegments s hs).ne_nil, (hsegments s hs).noSlash⟩
  have hmem : name ∈ requestSegments input := hrequest ▸ by simp
  exact (List.mem_filter.mp hmem).1

/-! ## Names of staged files -/

/-- `process.pid` is a number, and the uuids are values of `randomUUID()`. -/
structure Service.Identified (service : Service) (uuids : List JsString) : Prop where
  pid : IsPid service.pid
  uuid : ∀ uuid ∈ uuids, IsUuid uuid

theorem slash_notMem_uuid {uuid : JsString} (h : IsUuid uuid) : slash ∉ uuid := by
  intro hmem
  obtain hdigit | hdash := h.2 slash hmem
  · exact absurd hdigit (by decide)
  · exact absurd hdash (by decide)

theorem slash_notMem_pid {pid : JsString} (h : IsPid pid) : slash ∉ pid := by
  intro hmem
  exact absurd (h slash hmem) (by decide)

theorem wellFormed_uuid {uuid : JsString} (h : IsUuid uuid) : WellFormed uuid := by
  refine wellFormed_of_lt fun u hu => ?_
  obtain hdigit | rfl := h.2 u hu
  · simp only [isHexDigit, Bool.or_eq_true, Bool.and_eq_true, decide_eq_true_eq,
      UInt16.le_iff_toNat_le] at hdigit
    have hcodes : (ch '9').toNat = 0x39 ∧ (ch 'f').toNat = 0x66 ∧ (ch 'F').toNat = 0x46 := by decide
    omega
  · decide

theorem wellFormed_pid {pid : JsString} (h : IsPid pid) : WellFormed pid := by
  refine wellFormed_of_lt fun u hu => ?_
  have hdigit := (h u hu).2
  rw [UInt16.le_iff_toNat_le] at hdigit
  have hcode : (ch '9').toNat = 0x39 := by decide
  omega

theorem scalars_inj {s t : JsString} (hs : WellFormed s) (ht : WellFormed t)
    (h : scalars s = scalars t) : s = t := by
  rw [← hs.flatMap_units_scalars, h, ht.flatMap_units_scalars]

section
variable {service : Service} {uuids : List JsString} {uuid uuid' name name' : JsString}

theorem wellFormed_tempName (hpid : IsPid service.pid) (huuid : IsUuid uuid)
    (hname : WellFormed name) : WellFormed (service.tempName uuid name) := by
  unfold Service.tempName
  have hjs := wellFormed_js
  exact ((((((hjs ".").append hname).append (hjs _)).append (wellFormed_pid hpid)).append
    (hjs _)).append (wellFormed_uuid huuid)).append (hjs _)

theorem infix_tempName : uuid <:+: service.tempName uuid name :=
  ⟨js "." ++ name ++ js ".benchhand-write-" ++ service.pid ++ js "-", js ".tmp", rfl⟩

/-- A staged name gives back the name it is for. -/
theorem tempName_inj (huuid : IsUuid uuid) (huuid' : IsUuid uuid')
    (h : service.tempName uuid name = service.tempName uuid' name') : name = name' := by
  have hlength := congrArg List.length h
  simp only [Service.tempName, List.append_assoc, List.length_append, huuid.1, huuid'.1] at h hlength
  exact (List.append_inj (List.append_cancel_left h) (by omega)).1

end

/-! ## Territories -/

/-- The files that the operations of a key work at. -/
def Service.Territory (service : Service) (uuids : List JsString) (key : JsString) (path : Path) :
    Prop :=
  ∃ dir name, dir.Plain ∧ Requested uuids name ∧ key = target dir [name] ∧
    (path = dir ++ [scalars name] ∨
      ∃ uuid ∈ uuids, path = dir ++ [scalars (service.tempName uuid name)])

section
variable {service : Service} {uuids : List JsString} {key key' : JsString} {path : Path}

/-- No file belongs to two keys. -/
theorem territory_inj (hservice : service.Identified uuids)
    (h : service.Territory uuids key path) (h' : service.Territory uuids key' path) :
    key = key' := by
  obtain ⟨dir, name, hdir, hname, rfl, hpath⟩ := h
  obtain ⟨dir', name', hdir', hname', rfl, hpath'⟩ := h'
  have htemp {uuid name : JsString} (huuid : uuid ∈ uuids) (hname : Requested uuids name) :
      WellFormed (service.tempName uuid name) :=
    wellFormed_tempName hservice.pid (hservice.uuid uuid huuid) hname.wellFormed
  -- a name that was asked for is not the name of a staged file
  have hfresh {uuid name name' : JsString} (huuid : uuid ∈ uuids) (hname : Requested uuids name)
      (hname' : Requested uuids name') : scalars name ≠ scalars (service.tempName uuid name') := by
    intro heq
    have hnames := scalars_inj hname.wellFormed (htemp huuid hname') heq
    exact hname.fresh uuid huuid (hnames ▸ infix_tempName)
  obtain rfl | ⟨uuid, huuid, rfl⟩ := hpath
  · obtain hpath' | ⟨uuid', huuid', hpath'⟩ := hpath'
    · obtain ⟨rfl, hlast⟩ := List.append_inj' hpath' rfl
      rw [scalars_inj hname.wellFormed hname'.wellFormed (List.singleton_inj.mp hlast)]
    · have hlast := List.singleton_inj.mp (List.append_inj' hpath' rfl).2
      exact absurd hlast (hfresh huuid' hname hname')
  · obtain hpath' | ⟨uuid', huuid', hpath'⟩ := hpath'
    · have hlast := List.singleton_inj.mp (List.append_inj' hpath' rfl).2
      exact absurd hlast.symm (hfresh huuid hname' hname)
    · obtain ⟨rfl, hlast⟩ := List.append_inj' hpath' rfl
      have hnames := scalars_inj (htemp huuid hname) (htemp huuid' hname')
        (List.singleton_inj.mp hlast)
      rw [tempName_inj (hservice.uuid uuid huuid) (hservice.uuid uuid' huuid') hnames]

/-- Where an operation works. -/
theorem exists_spot (hservice : service.Identified uuids) {uuid : JsString} (huuid : uuid ∈ uuids)
    {prepared : Prepared} {dir : Path} {name : JsString} (hdir : dir.Plain)
    (hname : Requested uuids name) (htarget : prepared.target = target dir [name])
    (hparent : prepared.parent = dir.text) :
    ∃ x : Spot, x.dir = dir ∧ x.name = name ∧ prepared.At service uuid x ∧
      service.Territory uuids prepared.target x.place ∧
      service.Territory uuids prepared.target x.staged := by
  have hpid := slash_notMem_pid hservice.pid
  have hslash := slash_notMem_uuid (hservice.uuid uuid huuid)
  have htemp := plain_tempName hpid hslash hname.plain
  let x : Spot := ⟨dir, name, service.tempName uuid name, hdir, hname.plain, htemp,
    scalars_tempName_ne service uuid name⟩
  refine ⟨x, rfl, rfl, ⟨htarget, hparent, rfl, hpid, hslash⟩, ?_, ?_⟩
  · exact ⟨dir, name, hdir, hname, htarget, .inl rfl⟩
  · exact ⟨dir, name, hdir, hname, htarget, .inr ⟨uuid, huuid, rfl⟩⟩

end

/-! ## What a key sees -/

/-- Nothing has changed but files. -/
structure Kin (v w : Volume) : Prop where
  ways : SameWays v w
  umask : w.umask = v.umask

/-- A volume on which only files have changed, and which looks to a key like
another one. -/
structure SameFor (service : Service) (uuids : List JsString) (v : Volume) (key : JsString)
    (w u : Volume) : Prop where
  kin : Kin v w
  agree : ∀ path, service.Territory uuids key path → w.node? path = u.node? path

section
variable {service : Service} {uuids : List JsString} {key : JsString} {v w u : Volume}

theorem Kin.refl (v : Volume) : Kin v v := ⟨.refl v, rfl⟩

theorem Kin.changes {x : Spot} {w' u' : Volume} (h : Kin v w) (hchanges : Changes x w u w' u') :
    Kin v w' :=
  ⟨h.ways.trans hchanges.sameWays, hchanges.umask.trans h.umask⟩

theorem SameFor.refl (h : Kin v w) : SameFor service uuids v key w w := ⟨h, fun _ _ => rfl⟩

/-- A call of an operation is seen by its key only, and its key sees it alike
wherever it sees the same. -/
theorem within_operation (hservice : service.Identified uuids) {uuid : JsString}
    (huuid : uuid ∈ uuids) {prepared : Prepared} {dir : Path} {name : JsString}
    (hdir : v.Stands dir) (hname : Requested uuids name)
    (htarget : prepared.target = target dir [name]) (hparent : prepared.parent = dir.text)
    {faults : List (Option Fault)} {fault : Option Fault}
    (hhonest : ∀ f ∈ faults, HonestFault f) {c : Call}
    {next : Answer c → Prog Call Answer (Except Thrown MutationResult)} {m : Volume}
    (hm : Kin v m)
    (hsteps : Prog.Steps respond (prepared.operation service uuid).run m faults (.call c next) u)
    (hu : Kin v u) (hsame : SameFor service uuids v prepared.target w u) :
    Alongside respond (Kin v) (SameFor service uuids v) prepared.target fault c w u := by
  obtain ⟨x, rfl, rfl, hat, hplace, hstaged⟩ :=
    exists_spot hservice huuid hdir.plain hname htarget hparent
  have hown : Own x u c := own_next hat (hm.ways.stands hdir) hhonest hsteps
  have hsees : Sees x u w :=
    ⟨hu.ways.stands hdir, hsame.kin.ways.stands hdir, (hsame.agree _ hplace).symm,
      (hsame.agree _ hstaged).symm, hu.umask.trans hsame.kin.umask.symm⟩
  obtain ⟨hanswer, hchanges⟩ := Own.mirrors hsees hown fault
  have hkin : Kin v (respond fault c w).2 := hsame.kin.changes hchanges.symm
  refine ⟨hanswer.symm, fun key' u' hkey hother => ⟨hkin, fun path hpath => ?_⟩,
    ⟨hkin, fun path hpath => ?_⟩, hu.changes hchanges⟩
  · -- the file belongs to another key
    have hne {path' : Path} (hpath' : service.Territory uuids prepared.target path') :
        path ≠ path' := by
      rintro rfl
      exact hkey (territory_inj hservice hpath hpath')
    rw [hchanges.symm.frame (hne hplace) (hne hstaged), hother.agree path hpath]
  · exact hchanges.symm.agree (hsame.agree path hpath)

end

end Benchhand.Filesystem
