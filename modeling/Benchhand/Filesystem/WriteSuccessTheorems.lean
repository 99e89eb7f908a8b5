/-
Benchhand.Filesystem.WriteSuccessTheorems — when a write succeeds.

On a volume where no call fails but for its own reasons, each part of a write
resolves under a condition that can be read off the volume: the inspection of
the target (`total_inspectWriteTarget`), the target itself
(`total_writeTarget`), and the staging and putting in place
(`total_writeAtomic`). Put together they are what a write permits, and that the
name of the temporary file is short enough (`write_succeeds_iff`).
-/
import Benchhand.Filesystem.WriteTheorems

namespace Benchhand.Filesystem

open Text Posix Process

/-! ## Digests -/

section
variable {v : Volume} {service : Service}

/-- A file is hashed to its end, if its positions are safe integers. -/
theorem total_hashedFrom {handle : Handle} {bytes : Bytes} {mode : Mode}
    (hnode : handle.node = .file bytes mode) {Q : Bytes → Volume → Prop} :
    ∀ (fuel position : Nat), position ≤ bytes.length → maxSafeInteger + 1 < position + fuel →
      (Total (hashedFrom handle fuel position (bytes.take position)) Q v ↔
        bytes.length ≤ maxSafeInteger ∧ Q bytes v)
  | 0, position, hposition, hfuel => by
      unfold hashedFrom
      rw [total_throw]
      refine iff_of_false id fun h => ?_
      omega
  | fuel + 1, position, hposition, hfuel => by
      unfold hashedFrom
      split
      · rw [total_throw]
        refine iff_of_false id fun h => ?_
        omega
      have hread : perform (.read handle position hashChunkBytes) v =
          (.ok ((bytes.drop position).take hashChunkBytes), v) := by
        simp only [perform, Handle.bytes, hnode]
        rfl
      rw [total_bind]
      refine ((settles_call hread).total).trans ?_
      split
      · rename_i hnil
        have hend : bytes.drop position = [] := by
          rw [List.take_eq_nil_iff] at hnil
          exact hnil.resolve_left (by decide)
        have hlength := List.drop_eq_nil_iff.mp hend
        rw [List.take_of_length_le hlength, total_pure]
        exact ⟨fun h => ⟨by omega, h⟩, fun h => h.2⟩
      · rename_i hne
        have hpos : 0 < ((bytes.drop position).take hashChunkBytes).length :=
          List.length_pos_iff.mpr hne
        have hle : ((bytes.drop position).take hashChunkBytes).length ≤ bytes.length - position := by
          rw [List.length_take, List.length_drop]
          omega
        have hnext : bytes.take position ++ (bytes.drop position).take hashChunkBytes =
            bytes.take (position + ((bytes.drop position).take hashChunkBytes).length) := by
          rw [List.take_add, List.length_take]
          congr 1
          rw [List.take_eq_take_min, List.length_drop, Nat.min_comm]
        rw [hnext]
        exact total_hashedFrom hnode fuel _ (by omega) (by omega)

theorem total_sha256File {path : JsString} {place : Path} {bytes : Bytes} {mode : Mode}
    {portablePath : JsString} (hlocate : v.locate true path = .ok place)
    (hnode : v.node? place = some (.file bytes mode)) {Q : JsString → Volume → Prop} :
    Total (service.sha256File path portablePath) Q v ↔
      bytes.length ≤ maxSafeInteger ∧ Q (service.sha256 bytes) v := by
  have hopen : perform (.openRead path) v = (.ok ⟨place, .file bytes mode⟩, v) :=
    perform_openRead.mpr ⟨rfl, hlocate, hnode⟩
  unfold Service.sha256File
  rw [total_bind, total_mapError]
  refine ((settles_call hopen).total).trans ?_
  rw [total_bind, total_tryFinally]
  refine (total_hashedFrom (v := v) rfl _ 0 (Nat.zero_le _) (by omega)).trans ?_
  refine and_congr_right fun _ => ?_
  exact ((settles_call rfl).total).trans total_pure

/-! ## Inspections -/

theorem total_tryLstat {path : JsString} {handle : Thrown → Async (Option Stats)}
    {Q : Option Stats → Volume → Prop} :
    Total (tryCatch (some <$> lstat path) handle) Q v ↔
      (∃ place node, v.lookup false "lstat" path = .ok (place, node) ∧ Q (some node.stats) v) ∨
        ∃ e, v.lookup false "lstat" path = .error e ∧ Total (handle (.errno e)) Q v := by
  refine (total_catch (c := .lstat path) (g := some)).trans ?_
  have hperform : perform (.lstat path) v =
      ((v.lookup false "lstat" path).map fun found => found.2.stats, v) := rfl
  rw [hperform]
  cases v.lookup false "lstat" path with
  | ok found =>
      obtain ⟨place, node⟩ := found
      refine ⟨?_, ?_⟩
      · rintro (⟨_, _, heq, h⟩ | ⟨_, _, heq, -⟩)
        · cases heq
          exact .inl ⟨place, node, rfl, h⟩
        · cases heq
      · rintro (⟨_, _, heq, h⟩ | ⟨_, heq, -⟩)
        · cases heq
          exact .inl ⟨_, _, rfl, h⟩
        · cases heq
  | error e =>
      refine ⟨?_, ?_⟩
      · rintro (⟨_, _, heq, -⟩ | ⟨_, _, heq, h⟩)
        · cases heq
        · cases heq
          exact .inr ⟨e, rfl, h⟩
      · rintro (⟨_, _, heq, -⟩ | ⟨_, heq, h⟩)
        · cases heq
        · cases heq
          exact .inr ⟨_, _, rfl, h⟩

/-- The digests of larger files would need positions that are no safe integers. -/
def WriteTargetState.Hashable (state : WriteTargetState) : Prop := state.size ≤ maxSafeInteger

theorem inspects_unique {place : Path} {state state' : WriteTargetState}
    (h : Inspects service v place state) (h' : Inspects service v place state') :
    state = state' := by
  cases h with
  | missing hnode =>
      cases h' with
      | missing _ => rfl
      | file hnode' => exact absurd (hnode.symm.trans hnode') (by simp)
  | file hnode =>
      cases h' with
      | missing hnode' => exact absurd (hnode'.symm.trans hnode) (by simp)
      | file hnode' =>
          obtain ⟨rfl, rfl⟩ := Node.file.inj (Option.some.inj (hnode.symm.trans hnode'))
          rfl

/-- An inspection resolves when the target is absent or a file, under a name
that is short enough. -/
theorem total_inspectWriteTarget {dir : Path} (hdir : v.Stands dir) {name : JsString}
    (hname : Plain name) {path : JsString} {Q : WriteTargetState → Volume → Prop} :
    Total (service.inspectWriteTarget (target dir [name]) path) Q v ↔
      Name.size (scalars name) ≤ nameMax ∧
        ∃ state, Inspects service v (dir ++ [scalars name]) state ∧ state.Hashable ∧ Q state v := by
  have hcomponents : components (scalars (target dir [name])) = dir ++ [scalars name] :=
    components_target hdir.plain fun s hs => List.mem_singleton.mp hs ▸ hname
  obtain ⟨jump, hjump⟩ := Volume.locate_components hdir hcomponents false
  obtain ⟨jump', hjump'⟩ := Volume.locate_components hdir hcomponents true
  have hcode (reason : Reason) : hasErrnoCode (.errno (reason.errno "lstat"
      (quoted (target dir [name])))) "ENOENT" = (js reason.code == js "ENOENT") := rfl
  unfold Service.inspectWriteTarget
  rw [total_bind, total_tryLstat, Volume.lookup, hjump]
  obtain ⟨hsize, hlong⟩ | ⟨hsize, hshort⟩ := steps_single v false jump dir hname.name.ne_dotDot
  · rw [hlong]
    refine iff_of_false ?_ fun h => by omega
    rintro (⟨_, _, heq, -⟩ | ⟨e, heq, h⟩)
    · cases heq
    · obtain rfl := Except.error.inj heq
      rw [hcode, if_neg (by decide), total_throw] at h
      exact h
  rw [hshort fun _ _ => rfl]
  dsimp only
  cases hnode : v.node? (dir ++ [scalars name]) with
  | none =>
      constructor
      · rintro (⟨_, _, heq, -⟩ | ⟨e, heq, h⟩)
        · cases heq
        · obtain rfl := Except.error.inj heq
          rw [hcode, if_pos (by decide), total_pure, total_pure] at h
          exact ⟨hsize, _, .missing hnode, Nat.zero_le _, h⟩
      · rintro ⟨-, state, hstate, -, hQ⟩
        obtain rfl := inspects_unique hstate (.missing hnode)
        refine .inr ⟨_, rfl, ?_⟩
        rw [hcode, if_pos (by decide), total_pure, total_pure]
        exact hQ
  | some node =>
      have hfound {P : Path → Node → Prop} {P' : Errno → Prop} :
          ((∃ place node', (Except.ok (dir ++ [scalars name], node) : Except Errno (Path × Node)) =
              .ok (place, node') ∧ P place node') ∨
            ∃ e, (Except.ok (dir ++ [scalars name], node) : Except Errno (Path × Node)) = .error e ∧
              P' e) ↔ P (dir ++ [scalars name]) node := by
        refine ⟨?_, fun h => .inl ⟨_, _, rfl, h⟩⟩
        rintro (⟨_, _, heq, h⟩ | ⟨_, heq, -⟩)
        · cases heq
          exact h
        · cases heq
      refine hfound.trans ?_
      rw [total_bind, total_failWhen, total_bind, total_failWhen]
      cases node with
      | file bytes mode =>
          have hlocate : v.locate true (target dir [name]) = .ok (dir ++ [scalars name]) := by
            rw [hjump', Volume.steps_last hname.name.ne_dotDot hsize (by simp [hnode])]
          have hmode : BitVec.ofNat 12 (Node.file bytes mode).stats.mode = mode := by
            apply BitVec.eq_of_toNat_eq
            simp only [Node.stats, BitVec.toNat_ofNat]
            have := mode.isLt
            omega
          rw [total_bind, total_sha256File hlocate hnode, total_pure, hmode]
          constructor
          · rintro ⟨-, -, hbytes, hQ⟩
            exact ⟨hsize, _, .file hnode, hbytes, hQ⟩
          · rintro ⟨-, state, hstate, hhash, hQ⟩
            obtain rfl := inspects_unique hstate (.file hnode)
            exact ⟨rfl, rfl, hhash, hQ⟩
      | directory =>
          refine iff_of_false (fun h => absurd h.2.1 (by decide)) ?_
          rintro ⟨-, state, hstate, -⟩
          obtain ⟨_, _, heq⟩ := hstate.node _ hnode
          cases heq
      | symlink target =>
          refine iff_of_false (fun h => absurd h.1 (by simp [Node.stats])) ?_
          rintro ⟨-, state, hstate, -⟩
          obtain ⟨_, _, heq⟩ := hstate.node _ hnode
          cases heq
      | other =>
          refine iff_of_false (fun h => absurd h.2.1 (by decide)) ?_
          rintro ⟨-, state, hstate, -⟩
          obtain ⟨_, _, heq⟩ := hstate.node _ hnode
          cases heq

/-! ## The target of a request -/

variable {id requestPath path : JsString} {root : Path}

/-- A target is found for what names an entry of a directory of the
workspace. -/
theorem total_writeTarget {verb : String} (hroot : service.Root v id root)
    (hpath : normalizeRelativePath requestPath false = .ok path)
    {Q : JsString × JsString → Volume → Prop} :
    Total (writeTarget root.text path verb) Q v ↔ ∃ segs dir name,
      service.Aims v id requestPath root segs dir name ∧ path = portable (segs ++ [name]) ∧
        Q (dir.text, target dir [name]) v := by
  constructor
  · intro h
    have hyields : Yields still (writeTarget root.text path verb)
        (fun out v' => v' = v ∧ ∃ segs dir name,
          service.Aims v id requestPath root segs dir name ∧ path = portable (segs ++ [name]) ∧
            out = (dir.text, target dir [name])) v :=
      yields_writeTarget alone_still hroot hpath fun segs dir name haims heq =>
        ⟨rfl, segs, dir, name, haims, heq, rfl⟩
    obtain ⟨out, v', -, hfound, hQ⟩ := total_iff.mp (h.yields hyields)
    obtain ⟨rfl, segs, dir, name, haims, heq, rfl⟩ := hfound
    exact ⟨segs, dir, name, haims, heq, hQ⟩
  · rintro ⟨segs, dir, name, haims, rfl, hQ⟩
    have hsegs : ∀ s ∈ segs, Plain s := fun s hs => haims.plain s (List.mem_append_left _ hs)
    have hname := haims.plain_name
    have hlstat : perform (.lstat dir.text) v = (.ok Node.directory.stats, v) :=
      perform_lstat.mpr ⟨rfl, dir, .directory, Volume.locate_text (haims.stands.lands false),
        haims.stands.node, rfl⟩
    have hjoin : join dir.text name = target dir [name] := join_text haims.stands.plain hname
    have hinside : isSameOrDescendant root.text (target dir [name]) = true := by
      rw [isSameOrDescendant_target haims.available.lands.plain haims.stands.plain
        fun s hs => List.mem_singleton.mp hs ▸ hname]
      exact ((List.prefix_map_iff_of_injective text_injective).mpr haims.leads.inside).trans
        (List.prefix_append _ _)
    unfold writeTarget
    rw [dirname_portable hsegs hname, basename_portable hname]
    refine total_bind.mpr ?_
    refine (settles_resolveExistingPath haims.available.lands.plain hsegs haims.leads).total.mpr ?_
    rw [total_bind, total_mapError]
    refine ((settles_call hlstat).total).mpr ?_
    rw [hjoin, total_bind, total_failWhen, total_bind, total_failWhen, total_pure, hinside]
    exact ⟨rfl, rfl, hQ⟩

/-! ## The temporary file -/

/-- The name of the temporary file of a target. -/
def Service.tempName (service : Service) (uuid name : JsString) : JsString :=
  js "." ++ name ++ js ".benchhand-write-" ++ service.pid ++ js "-" ++ uuid ++ js ".tmp"

/-- What `process.pid` and `randomUUID()` are: no separator is in them, and
nothing in the file system has a name with this uuid yet. -/
structure Service.NewUuid (service : Service) (uuid : JsString) (v : Volume) : Prop where
  pidPlain : slash ∉ service.pid
  plain : slash ∉ uuid
  free : ∀ dir name, v.node? (dir ++ [scalars (service.tempName uuid name)]) = none

theorem plain_tempName {uuid : JsString} (hpid : slash ∉ service.pid) (huuid : slash ∉ uuid)
    {name : JsString} (hname : Plain name) : Plain (service.tempName uuid name) := by
  obtain ⟨u, rest, rfl⟩ := List.exists_cons_of_ne_nil hname.ne_nil
  have hlength : 3 ≤ (service.tempName uuid (u :: rest)).length := by
    simp only [Service.tempName, List.length_append, List.length_cons]
    have hdot : (js ".").length = 1 := by decide
    have htmp : (js ".tmp").length = 4 := by decide
    omega
  refine ⟨?_, ?_, ?_, ?_⟩
  · intro heq
    rw [heq] at hlength
    exact absurd hlength (by decide)
  · intro heq
    rw [heq] at hlength
    exact absurd hlength (by decide)
  · intro heq
    rw [heq] at hlength
    exact absurd hlength (by decide)
  · simp only [Service.tempName, List.mem_append, not_or]
    have hparts : slash ∉ js "." ∧ slash ∉ js ".benchhand-write-" ∧ slash ∉ js "-" ∧
        slash ∉ js ".tmp" := by decide
    exact ⟨⟨⟨⟨⟨⟨hparts.1, hname.noSlash⟩, hparts.2.1⟩, hpid⟩, hparts.2.2.1⟩, huuid⟩,
      hparts.2.2.2⟩

/-- The name of the target is in it, between characters that are no halves of
a surrogate pair. -/
theorem scalars_tempName (service : Service) (uuid name : JsString) :
    ∃ rest, scalars (service.tempName uuid name) =
      scalars (js ".") ++ (scalars name ++ (scalars (js ".benchhand-write-") ++ rest)) := by
  have hassoc : service.tempName uuid name = js "." ++ (name ++ (js ".benchhand-write-" ++
      (service.pid ++ js "-" ++ uuid ++ js ".tmp"))) := by
    simp [Service.tempName]
  have hdot : ¬ (endsHigh (js ".") = true ∧ startsLow (name ++ (js ".benchhand-write-" ++
      (service.pid ++ js "-" ++ uuid ++ js ".tmp"))) = true) :=
    fun h => absurd h.1 (by decide)
  have hmark : ¬ (endsHigh (js ".benchhand-write-") = true ∧
      startsLow (service.pid ++ js "-" ++ uuid ++ js ".tmp") = true) :=
    fun h => absurd h.1 (by decide)
  have hname : ¬ (endsHigh name = true ∧ startsLow (js ".benchhand-write-" ++
      (service.pid ++ js "-" ++ uuid ++ js ".tmp")) = true) := by
    have hfirst : js ".benchhand-write-" = ch '.' :: js "benchhand-write-" := by decide
    rw [hfirst, List.cons_append, startsLow_cons]
    exact fun h => absurd h.2 (by decide)
  rw [hassoc, scalars, codePoints_append hdot, codePoints_append hname, codePoints_append hmark]
  simp only [List.map_append]
  exact ⟨_, rfl⟩

/-- The temporary file has another name than the target. -/
theorem scalars_tempName_ne (service : Service) (uuid name : JsString) :
    scalars (service.tempName uuid name) ≠ scalars name := by
  intro heq
  obtain ⟨rest, hrest⟩ := scalars_tempName service uuid name
  have hlength := congrArg List.length (hrest.symm.trans heq)
  rw [List.length_append, List.length_append] at hlength
  have hone : (scalars (js ".")).length = 1 := by decide
  omega

theorem enforceWritePrecondition_ok {expected : Option (Option JsString)}
    {state : WriteTargetState} {u : PUnit.{1}} (h : enforceWritePrecondition expected state path = .ok u)
    (hexpected : expected = some none) : state.existing = false := by
  subst hexpected
  cases hexisting : state.existing with
  | false => rfl
  | true =>
      rw [enforceWritePrecondition, hexisting] at h
      cases h

/-! ## Staging and putting in place -/

section
variable {v' : Volume} {temp place : Path} {content : Bytes}

theorem total_stageContent {handle : Handle} (hpath : handle.path = temp)
    {initial : WriteTargetState} (hstaged : Staged v v' temp []) :
    Total (tryFinally (stageContent handle initial content) (Handle.close handle))
      (fun _ v'' => Staged v v'' temp content) v' := by
  have hwrite {v' : Volume} (hstaged : Staged v v' temp []) :
      Total (Handle.writeFile handle content >>= fun _ => Handle.sync handle)
        (fun _ v'' => Total (Handle.close handle) (fun _ v'' => Staged v v'' temp content) v'')
        v' := by
    refine total_bind.mpr (total_call.mpr ⟨_, _, rfl, ?_⟩)
    refine total_call.mpr ⟨_, _, rfl, ?_⟩
    exact total_call.mpr ⟨_, _, rfl, hstaged.edit hpath fun mode => ⟨mode, rfl⟩⟩
  refine total_tryFinally.mpr ?_
  unfold stageContent
  refine total_bind.mpr ?_
  split
  · exact total_call.mpr ⟨_, _, rfl, hwrite (hstaged.edit hpath fun mode => ⟨_, rfl⟩)⟩
  · exact total_pure.mpr (hwrite hstaged)

theorem total_commitTemp {options : WriteOptions} {tempPath : JsString}
    (hstaged : Staged v v' temp content) (hold : v.locate false tempPath = .ok temp)
    (hnew : v'.locate false options.target = .ok place) {state : WriteTargetState}
    (hstate : Inspects service v' place state) {u : PUnit.{1}}
    (henforce : enforceWritePrecondition options.expectedSha256 state options.path = .ok u) :
    Total (commitTemp options tempPath) (fun _ _ => True) v' := by
  unfold commitTemp
  split
  · rename_i hexpected
    have hfree : v'.node? place = none := by
      cases hstate with
      | missing hnode => exact hnode
      | file hnode => cases enforceWritePrecondition_ok henforce hexpected
    obtain ⟨mode, hlookup⟩ := hstaged.lookup_temp hold "link"
    have hlink : perform (.link tempPath options.target) v' =
        (.ok ⟨⟩, v'.put place (.file content mode)) := by
      simp only [perform, Volume.link, hnew, hlookup, hfree, Option.isSome_none,
        Bool.false_eq_true, if_false]
      rfl
    unfold linkTarget
    refine total_bind.mpr ((settles_catch (settles_call hlink)).total.mpr ?_)
    exact total_caught (fun _ _ => trivial) fun _ _ => total_pure.mpr trivial
  · obtain ⟨mode, hlookup⟩ := hstaged.lookup_temp hold "rename"
    have hdirectory : v'.node? place ≠ some .directory := by
      intro hnode
      obtain ⟨_, _, heq⟩ := hstate.node _ hnode
      cases heq
    have hrename : perform (.rename tempPath options.target) v' =
        (.ok ⟨⟩, (v'.erase temp).put place (.file content mode)) := by
      simp only [perform, Volume.rename, hlookup, hnew, if_neg hdirectory]
      rfl
    exact total_mapError.mpr (total_call.mpr ⟨_, _, hrename, trivial⟩)

end

theorem tempPath_eq {uuid name : JsString} {dir : Path} {options : WriteOptions}
    (hdir : dir.Plain) (hname : Plain name) (hpid : slash ∉ service.pid) (huuid : slash ∉ uuid)
    (htarget : options.target = target dir [name]) (hparent : options.parent = dir.text) :
    service.tempPath uuid options = target dir [service.tempName uuid name] := by
  have hbasename : basename options.target = name := by
    have hjoin : join dir.text name = target dir [name] := join_text hdir hname
    rw [htarget, ← hjoin, basename_join hname]
  have hjoin : join dir.text (service.tempName uuid name) =
      target dir [service.tempName uuid name] :=
    join_text hdir (plain_tempName hpid huuid hname)
  rw [← hjoin, Service.tempPath, hbasename, hparent, Service.tempName]

section
variable {uuid name : JsString} {dir : Path} {options : WriteOptions}
  (hdir : v.Stands dir) (hname : Plain name) (huuid : service.NewUuid uuid v)
  (htarget : options.target = target dir [name]) (hparent : options.parent = dir.text)
include hdir hname huuid htarget hparent

/-- Where the temporary file would be, if its name is short enough. -/
theorem locate_tempPath : (∃ place, v.locate false (service.tempPath uuid options) = .ok place) ↔
    Name.size (scalars (service.tempName uuid name)) ≤ nameMax := by
  have htemp := plain_tempName huuid.pidPlain huuid.plain hname
  have hcomponents : components (scalars (target dir [service.tempName uuid name])) =
      dir ++ [scalars (service.tempName uuid name)] :=
    components_target hdir.plain fun s hs => List.mem_singleton.mp hs ▸ htemp
  obtain ⟨jump, hjump⟩ := Volume.locate_components hdir hcomponents false
  rw [tempPath_eq hdir.plain hname huuid.pidPlain huuid.plain htarget hparent, hjump]
  obtain ⟨hsize, hlong⟩ | ⟨hsize, hshort⟩ := steps_single v false jump dir htemp.name.ne_dotDot
  · rw [hlong]
    exact iff_of_false (fun ⟨_, h⟩ => by cases h) (by omega)
  · exact iff_of_true ⟨_, hshort fun _ _ => rfl⟩ hsize

theorem localTotal_writeBody {initial : WriteTargetState}
    (hsize : Name.size (scalars name) ≤ nameMax)
    (hinitial : Inspects service v (dir ++ [scalars name]) initial) (hhash : initial.Hashable)
    {u : PUnit.{1}}
    (henforce : enforceWritePrecondition options.expectedSha256 initial options.path = .ok u)
    (htempSize : Name.size (scalars (service.tempName uuid name)) ≤ nameMax) :
    LocalTotal (service.writeBody uuid options initial) (fun _ s _ => s.renamed = true)
      ⟨false, false⟩ v := by
  have htemp := plain_tempName huuid.pidPlain huuid.plain hname
  have hpath := tempPath_eq hdir.plain hname huuid.pidPlain huuid.plain htarget hparent
  have hlocate : v.locate false (service.tempPath uuid options) =
      .ok (dir ++ [scalars (service.tempName uuid name)]) := by
    have hcomponents : components (scalars (target dir [service.tempName uuid name])) =
        dir ++ [scalars (service.tempName uuid name)] :=
      components_target hdir.plain fun s hs => List.mem_singleton.mp hs ▸ htemp
    obtain ⟨jump, hjump⟩ := Volume.locate_components hdir hcomponents false
    rw [hpath, hjump, Volume.steps_last htemp.name.ne_dotDot htempSize fun _ _ => rfl]
  have hfree := huuid.free dir name
  unfold Service.writeBody
  refine localTotal_bind.mpr (localTotal_lift.mpr (total_mapError.mpr (total_call.mpr ?_)))
  have hopen (mode : Mode) : perform (.openExclusive (service.tempPath uuid options) mode) v =
      (.ok ⟨dir ++ [scalars (service.tempName uuid name)], .file [] (mode &&& ~~~v.umask)⟩,
        v.put (dir ++ [scalars (service.tempName uuid name)]) (.file [] (mode &&& ~~~v.umask))) := by
    simp only [perform, Volume.openExclusive, hlocate, hfree]
    rfl
  refine ⟨_, _, hopen _, ?_⟩
  obtain ⟨hold, hcreated⟩ := perform_openExclusive (hopen _)
  refine localTotal_bind.mpr (localTotal_assign.mpr ?_)
  refine localTotal_bind.mpr (localTotal_lift.mpr ?_)
  refine (total_stageContent rfl hcreated).mono fun _ v₂ hstaged => ?_
  have hdir₂ := hdir.keeps hstaged.keepsWays
  have hne : dir ++ [scalars name] ≠ dir ++ [scalars (service.tempName uuid name)] := fun heq =>
    scalars_tempName_ne service uuid name
      (List.singleton_inj.mp (List.append_cancel_left heq)).symm
  have hinitial₂ : Inspects service v₂ (dir ++ [scalars name]) initial := by
    have hnode := hstaged.frame _ hne
    cases hinitial with
    | missing h => exact .missing (hnode.trans h)
    | file h => exact .file (hnode.trans h)
  have hnew : v₂.locate false options.target = .ok (dir ++ [scalars name]) := by
    have hcomponents : components (scalars options.target) = dir ++ [scalars name] := by
      rw [htarget]
      exact components_target hdir.plain fun s hs => List.mem_singleton.mp hs ▸ hname
    obtain ⟨jump, hjump⟩ := Volume.locate_components hdir₂ hcomponents false
    rw [hjump, Volume.steps_last hname.name.ne_dotDot hsize fun _ _ => rfl]
  refine localTotal_bind.mpr (localTotal_lift.mpr ?_)
  have hinspect : Total (service.inspectWriteTarget options.target options.path)
      (fun state v' => state = initial ∧ v' = v₂) v₂ := by
    rw [htarget]
    exact (total_inspectWriteTarget hdir₂ hname).mpr
      ⟨hsize, initial, hinitial₂, hhash, rfl, rfl⟩
  refine hinspect.mono ?_
  rintro before v' ⟨rfl, rfl⟩
  refine localTotal_bind.mpr (localTotal_lift.mpr (total_ofExcept.mpr ⟨_, henforce, ?_⟩))
  refine localTotal_bind.mpr (localTotal_lift.mpr ?_)
  refine (total_commitTemp hstaged hold hnew hinitial₂ henforce).mono fun _ v₃ _ => ?_
  refine localTotal_bind.mpr (localTotal_assign.mpr ?_)
  refine localTotal_bind.mpr (localTotal_lift.mpr ?_)
  exact total_caught (fun _ _ => localTotal_pure.mpr rfl) fun _ _ =>
    total_pure.mpr (localTotal_pure.mpr rfl)

/-- The target is replaced exactly when its precondition holds and the name of
the temporary file is short enough. -/
theorem total_writeAtomic : Total (service.writeAtomic uuid options) (fun _ _ => True) v ↔
    Name.size (scalars name) ≤ nameMax ∧
      Name.size (scalars (service.tempName uuid name)) ≤ nameMax ∧
      ∃ state, Inspects service v (dir ++ [scalars name]) state ∧ state.Hashable ∧
        ∃ u : Unit, enforceWritePrecondition options.expectedSha256 state options.path = .ok u := by
  unfold Service.writeAtomic
  rw [total_bind, htarget, total_inspectWriteTarget hdir hname]
  constructor
  · rintro ⟨hsize, state, hstate, hhash, h⟩
    obtain ⟨u, henforce, h⟩ := total_ofExcept.mp (total_bind.mp h)
    have hbody := total_localTryFinally.mp h
    unfold Service.writeBody at hbody
    have hopen := localTotal_lift.mp (localTotal_bind.mp hbody)
    obtain ⟨handle, v', hperform, -⟩ := total_call.mp (total_mapError.mp hopen)
    have hlocate := (perform_openExclusive hperform).1
    exact ⟨hsize, (locate_tempPath hdir hname huuid htarget hparent).mp ⟨_, hlocate⟩, state, hstate,
      hhash, u, henforce⟩
  · rintro ⟨hsize, htempSize, state, hstate, hhash, u, henforce⟩
    refine ⟨hsize, state, hstate, hhash, ?_⟩
    refine total_bind.mpr (total_ofExcept.mpr ⟨u, henforce, total_localTryFinally.mpr ?_⟩)
    have hbody := localTotal_writeBody hdir hname huuid htarget hparent hsize hstate hhash henforce
      htempSize
    refine ⟨hbody.wp.mono (fun _ s v' hrenamed => ?_) fun _ _ _ => id⟩
    rw [if_neg (by simp [hrenamed])]
    exact total_pure.mpr trivial

end

/-! ## Requests -/

variable {request : WriteRequest}

theorem total_accessWorkspace {Q : JsString → Volume → Prop} :
    Total (service.accessWorkspace id) Q v ↔ ∃ root, service.Root v id root ∧ Q root.text v := by
  constructor
  · intro h
    have hyields : Yields still (service.accessWorkspace id)
        (fun out v' => v' = v ∧ ∃ root, service.Root v id root ∧ out = root.text) v :=
      yields_accessWorkspace alone_still fun root hroot => ⟨rfl, root, hroot, rfl⟩
    obtain ⟨out, v', -, ⟨rfl, root, hroot, rfl⟩, hQ⟩ := total_iff.mp (h.yields hyields)
    exact ⟨root, hroot, hQ⟩
  · rintro ⟨root, hroot, hQ⟩
    exact (settles_accessWorkspace hroot).total.mpr hQ

theorem total_prepareWrite {Q : WriteOptions → Volume → Prop} :
    Total (service.prepareWrite request) Q v ↔
      (encodeUtf8 request.content).length ≤ maxWriteBytes ∧
      ∃ expected, normalizeExpectedSha256 request.expectedSha256 = .ok expected ∧
      ∃ root segs dir name,
        service.Aims v request.workspaceId request.path root segs dir name ∧
          Q ⟨portable (segs ++ [name]), target dir [name], dir.text, encodeUtf8 request.content,
            expected⟩ v := by
  unfold Service.prepareWrite
  rw [total_bind, total_failWhen, decide_eq_false_iff_not, Nat.not_lt, total_bind, total_ofExcept]
  refine and_congr_right fun _ => exists_congr fun expected => and_congr_right fun _ => ?_
  rw [total_bind, total_accessWorkspace]
  constructor
  · rintro ⟨root, hroot, h⟩
    obtain ⟨path, hpath, h⟩ := total_ofExcept.mp (total_bind.mp h)
    obtain ⟨segs, dir, name, haims, rfl, h⟩ :=
      (total_writeTarget hroot hpath).mp (total_bind.mp h)
    exact ⟨root, segs, dir, name, haims, total_pure.mp h⟩
  · rintro ⟨root, segs, dir, name, haims, hQ⟩
    refine ⟨root, haims.available, total_bind.mpr (total_ofExcept.mpr ⟨_, haims.path, ?_⟩)⟩
    refine total_bind.mpr ((total_writeTarget haims.available haims.path).mpr ?_)
    exact ⟨segs, dir, name, haims, rfl, total_pure.mpr hQ⟩

/-- The precondition of a request, on what has the name of its target. -/
def Service.Meets (service : Service) (expected : Option (Option JsString)) (node : Option Node) :
    Prop :=
  match expected with
  | none => True
  | some none => node = none
  | some (some value) => isSha256 value ∧
      ∃ bytes mode, node = some (.file bytes mode) ∧ service.sha256 bytes = lowerHex value

/-- What a write asks for: a place in an available workspace that is free or
has a file, a content that is not too long, and its precondition. -/
structure Service.Permits (service : Service) (v : Volume) (request : WriteRequest) (root : Path)
    (segs : List JsString) (dir : Path) (name : JsString) : Prop where
  aims : service.Aims v request.workspaceId request.path root segs dir name
  size : Name.size (scalars name) ≤ nameMax
  target : ∀ node, v.node? (dir ++ [scalars name]) = some node → node.type = .file
  content : (encodeUtf8 request.content).length ≤ maxWriteBytes
  precondition : service.Meets request.expectedSha256 (v.node? (dir ++ [scalars name]))

/-- What it needs besides: a name for the temporary file, and a target whose
bytes can be counted. -/
structure Service.Stageable (service : Service) (v : Volume) (uuid : JsString) (dir : Path)
    (name : JsString) : Prop where
  tempSize : Name.size (scalars (service.tempName uuid name)) ≤ nameMax
  countable : ∀ bytes mode, v.node? (dir ++ [scalars name]) = some (.file bytes mode) →
    bytes.length ≤ maxSafeInteger

/-! ## Success -/

/-- A place that is free or has a file can be inspected. -/
theorem inspects_iff {place : Path} {P : WriteTargetState → Prop} :
    (∃ state, Inspects service v place state ∧ state.Hashable ∧ P state) ↔
      (∀ node, v.node? place = some node → node.type = .file) ∧
      (∀ bytes mode, v.node? place = some (.file bytes mode) → bytes.length ≤ maxSafeInteger) ∧
      ∃ state, Inspects service v place state ∧ P state := by
  constructor
  · rintro ⟨state, hstate, hhash, hP⟩
    refine ⟨fun node hnode => ?_, fun bytes mode hnode => ?_, state, hstate, hP⟩
    · obtain ⟨bytes, mode, rfl⟩ := hstate.node node hnode
      rfl
    · obtain rfl := inspects_unique hstate (.file hnode)
      exact hhash
  · rintro ⟨-, hcount, state, hstate, hP⟩
    refine ⟨state, hstate, ?_, hP⟩
    cases hstate with
    | missing hnode => exact Nat.zero_le _
    | file hnode => exact hcount _ _ hnode

/-- The precondition is checked as it is stated. -/
theorem meets_iff {place : Path} {state : WriteTargetState} (hstate : Inspects service v place state)
    (expected : Option (Option JsString)) (path : JsString) :
    service.Meets expected (v.node? place) ↔ ∃ normal, normalizeExpectedSha256 expected = .ok normal ∧
      ∃ u : Unit, enforceWritePrecondition normal state path = .ok u := by
  match expected with
  | none => exact iff_of_true trivial ⟨none, rfl, (), rfl⟩
  | some none =>
      cases hstate with
      | missing hnode => exact iff_of_true hnode ⟨some none, rfl, (), rfl⟩
      | file hnode =>
          refine iff_of_false (fun h => absurd (hnode.symm.trans h) (by simp)) ?_
          rintro ⟨normal, hnormal, u, henforce⟩
          cases hnormal
          cases henforce
  | some (some value) =>
      unfold normalizeExpectedSha256 Service.Meets
      dsimp only
      cases hvalue : isSha256 value with
      | false =>
          refine iff_of_false (fun h => absurd h.1 (by simp)) ?_
          rintro ⟨normal, hnormal, -⟩
          cases hnormal
      | true =>
          cases hstate with
          | missing hnode =>
              refine iff_of_false ?_ ?_
              · rintro ⟨-, bytes, mode, hfile, -⟩
                exact absurd (hnode.symm.trans hfile) (by simp)
              · rintro ⟨normal, hnormal, u, henforce⟩
                cases hnormal
                cases henforce
          | @file bytes mode hnode =>
              rw [hnode]
              by_cases heq : service.sha256 bytes = lowerHex value
              · refine iff_of_true ⟨rfl, bytes, mode, rfl, heq⟩ ⟨_, rfl, (), ?_⟩
                simp [enforceWritePrecondition, heq]
              · refine iff_of_false ?_ ?_
                · rintro ⟨-, _, _, hfile, hdigest⟩
                  cases hfile
                  exact heq hdigest
                · rintro ⟨normal, hnormal, u, henforce⟩
                  cases hnormal
                  simp [enforceWritePrecondition, heq] at henforce

theorem total_write {uuid : JsString} (huuid : service.NewUuid uuid v) :
    Total (service.write uuid request) (fun _ _ => True) v ↔ ∃ root segs dir name,
      service.Permits v request root segs dir name ∧ service.Stageable v uuid dir name := by
  unfold Service.write
  rw [total_bind, total_prepareWrite]
  constructor
  · rintro ⟨hcontent, expected, hexpected, root, segs, dir, name, haims, h⟩
    obtain ⟨hsize, htempSize, hstate⟩ :=
      (total_writeAtomic haims.stands haims.plain_name huuid rfl rfl).mp h
    obtain ⟨htarget, hcount, state, hstate, henforce⟩ := inspects_iff.mp hstate
    have hmeets := (meets_iff hstate request.expectedSha256 _).mpr ⟨expected, hexpected, henforce⟩
    exact ⟨root, segs, dir, name, ⟨haims, hsize, htarget, hcontent, hmeets⟩, htempSize, hcount⟩
  · rintro ⟨root, segs, dir, name, hpermits, hstageable⟩
    have hplace : ∃ state, Inspects service v (dir ++ [scalars name]) state := by
      cases hnode : v.node? (dir ++ [scalars name]) with
      | none => exact ⟨_, .missing hnode⟩
      | some node =>
          have hfile := hpermits.target node hnode
          cases node with
          | file bytes mode => exact ⟨_, .file hnode⟩
          | directory => cases hfile
          | symlink target => cases hfile
          | other => cases hfile
    obtain ⟨state, hstate⟩ := hplace
    obtain ⟨normal, hnormal, henforce⟩ :=
      (meets_iff hstate request.expectedSha256 (portable (segs ++ [name]))).mp hpermits.precondition
    refine ⟨hpermits.content, normal, hnormal, root, segs, dir, name, hpermits.aims, ?_⟩
    exact (total_writeAtomic hpermits.aims.stands hpermits.aims.plain_name huuid rfl rfl).mpr
      ⟨hpermits.size, hstageable.tempSize,
        inspects_iff.mpr ⟨hpermits.target, hstageable.countable, state, hstate, henforce⟩⟩

/-- A request aims at one place. -/
theorem Service.Aims.unique {requestPath : JsString} {root root' : Path} {segs segs' : List JsString}
    {dir dir' : Path} {name name' : JsString}
    (h : service.Aims v id requestPath root segs dir name)
    (h' : service.Aims v id requestPath root' segs' dir' name') : dir = dir' ∧ name = name' := by
  have hrecord := h.available.record.symm.trans h'.available.record
  have htext : root.text = root'.text := by simpa using hrecord
  have hroot : root = root' := by
    have hlocate := Volume.locate_text h.available.lands
    rw [htext, Volume.locate_text h'.available.lands] at hlocate
    exact (Except.ok.inj hlocate).symm
  have hsegs := portable_injective h.plain h'.plain
    (Except.ok.inj (h.path.symm.trans h'.path))
  obtain ⟨rfl, hname⟩ := List.append_inj' hsegs rfl
  subst hroot
  exact ⟨Except.ok.inj (h.leads.located.symm.trans h'.leads.located), List.singleton_inj.mp hname⟩

/-- A write succeeds exactly when it should, if and only if what it should
write can be staged. -/
theorem write_succeeds_iff (service : Service) (v : Volume) (uuid : JsString)
    (request : WriteRequest) (huuid : service.NewUuid uuid v) :
    ((∃ result v', Settles (service.write uuid request) v result v') ↔
        ∃ root segs dir name, service.Permits v request root segs dir name) ↔
      ∀ root segs dir name, service.Permits v request root segs dir name →
        service.Stageable v uuid dir name := by
  have hwrite : (∃ result v', Settles (service.write uuid request) v result v') ↔
      ∃ root segs dir name, service.Permits v request root segs dir name ∧
        service.Stageable v uuid dir name := by
    rw [← total_write huuid, total_iff]
    exact exists_congr fun _ => exists_congr fun _ => (and_iff_left trivial).symm
  rw [hwrite]
  constructor
  · intro h root segs dir name hpermits
    obtain ⟨root', segs', dir', name', hpermits', hstageable⟩ := h.mpr ⟨_, _, _, _, hpermits⟩
    obtain ⟨rfl, rfl⟩ := hpermits.aims.unique hpermits'.aims
    exact hstageable
  · intro h
    refine ⟨fun ⟨root, segs, dir, name, hpermits, _⟩ => ⟨root, segs, dir, name, hpermits⟩, ?_⟩
    exact fun ⟨root, segs, dir, name, hpermits⟩ =>
      ⟨root, segs, dir, name, hpermits, h root segs dir name hpermits⟩

end

/-- No name in the volume of one file is as long as that of a temporary file. -/
theorem newUuid_oneFile {uuid : JsString} (huuid : slash ∉ uuid) (bytes : Bytes) :
    oneWorkspace.NewUuid uuid (oneFile bytes) := by
  refine ⟨by decide, huuid, fun dir name => ?_⟩
  obtain ⟨rest, hrest⟩ := scalars_tempName oneWorkspace uuid name
  have hlength := congrArg List.length hrest
  simp only [List.length_append] at hlength
  have hmark : (scalars (js ".benchhand-write-")).length = 17 := by decide
  rw [Volume.node?, if_neg (by simp)]
  refine Store.Table.lookup_eq_none_iff.mpr ?_
  intro hmem
  obtain heq | heq := List.mem_pair.mp hmem
  · have hlast : scalars (oneWorkspace.tempName uuid name) = "ws".toList := by
      simpa using congrArg List.getLast? heq
    rw [hlast] at hlength
    have : "ws".toList.length = 2 := by decide
    omega
  · have hlast : scalars (oneWorkspace.tempName uuid name) = "a".toList := by
      simpa using congrArg List.getLast? heq
    rw [hlast] at hlength
    have : "a".toList.length = 1 := by decide
    omega

/-- A value of `randomUUID()`. -/
def sampleUuid : JsString := js "3b241101-e2bb-4255-8caf-4136c566a962"

theorem sampleUuid_plain : slash ∉ sampleUuid := by decide

/-- A request to create a file. -/
def createNamed (name : JsString) : WriteRequest := ⟨js "ws", name, js "text", some none⟩

theorem permits_createNamed {name : JsString} (hname : Segment name)
    (hpath : normalizeRelativePath name false = .ok name)
    (hsize : Name.size (scalars name) ≤ nameMax)
    (hfree : (oneFile []).node? ["ws".toList, scalars name] = none) :
    oneWorkspace.Permits (oneFile []) (createNamed name) ["ws".toList] [] ["ws".toList] name := by
  have hroot : (oneFile []).locate true (Path.text ["ws".toList]) = .ok ["ws".toList] := rfl
  have hlands := Volume.lands_of_locate hroot
  have hsegment : ∀ s ∈ [] ++ [name], Segment s := fun s hs => List.mem_singleton.mp hs ▸ hname
  have hportable : portable ([] ++ [name]) = name := by
    simp [portable, joinSegments]
  have hcontent : (encodeUtf8 (js "text")).length ≤ maxWriteBytes := by decide
  refine ⟨⟨⟨rfl, hlands, rfl⟩, hportable.symm ▸ hpath, hsegment, ⟨?_, rfl, List.prefix_refl _⟩,
    ⟨hlands.toReached, rfl⟩⟩, hsize, fun node hnode => ?_, hcontent, hfree⟩
  · rw [target_nil]
    exact hroot
  · cases hfree.symm.trans hnode

theorem write_succeeds_new : ∃ result v',
    Settles (oneWorkspace.write sampleUuid (createNamed (js "b"))) (oneFile []) result v' := by
  have huuid := newUuid_oneFile sampleUuid_plain []
  have hname : Segment (js "b") :=
    ⟨⟨by decide, by decide, by decide, by decide⟩, by decide, by decide⟩
  have hpermits := permits_createNamed hname (by decide) (by decide) (by decide)
  refine ((write_succeeds_iff oneWorkspace (oneFile []) sampleUuid (createNamed (js "b"))
    huuid).mpr fun root segs dir name h => ?_).mpr ⟨_, _, _, _, hpermits⟩
  obtain ⟨rfl, rfl⟩ := hpermits.aims.unique h.aims
  have hfree : (oneFile []).node? (["ws".toList] ++ [scalars (js "b")]) = none := by decide
  exact ⟨by decide +kernel, fun bytes mode hnode => by cases hfree.symm.trans hnode⟩

/-- A name that fits, while that of its temporary file does not. -/
def longName : JsString := List.replicate 210 (ch 'b')

theorem write_refuses_long_name :
    oneWorkspace.NewUuid sampleUuid (oneFile []) ∧
    oneWorkspace.Permits (oneFile []) (createNamed longName) ["ws".toList] [] ["ws".toList]
      longName ∧
    ¬ ∃ result v',
      Settles (oneWorkspace.write sampleUuid (createNamed longName)) (oneFile []) result v' := by
  have huuid := newUuid_oneFile sampleUuid_plain []
  have hname : Segment longName :=
    ⟨⟨by decide, by decide, by decide, by decide +kernel⟩, by decide +kernel, by decide +kernel⟩
  have hpermits := permits_createNamed hname (by decide +kernel) (by decide +kernel)
    (by decide +kernel)
  refine ⟨huuid, hpermits, ?_⟩
  rintro ⟨result, v', hsettles⟩
  obtain ⟨root, segs, dir, name, h, hstageable⟩ :=
    (total_write huuid).mp (total_iff.mpr ⟨result, v', hsettles, trivial⟩)
  obtain ⟨rfl, rfl⟩ := hpermits.aims.unique h.aims
  exact absurd hstageable.tempSize (by decide +kernel)

end Benchhand.Filesystem
