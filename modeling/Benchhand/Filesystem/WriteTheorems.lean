/-
Benchhand.Filesystem.WriteTheorems — what a write leaves on a volume.

An inspection reports the file that is there (`yields_inspectWriteTarget`). A
write that succeeds leaves the content at its target, and every directory and
every link as it was (`yields_write`), so the path leads to it; what a read of
the path then returns is the content as far as the encoding keeps it
(`write_read`).
-/
import Benchhand.Filesystem.ReadTheorems
import Benchhand.Filesystem.Write

namespace Benchhand.Filesystem

open Text Posix Process

/-! ## Inspecting the target -/

/-- What an inspection of a place reports. -/
inductive Inspects (service : Service) (v : Volume) (place : Path) : WriteTargetState → Prop
  | missing (h : v.node? place = none) : Inspects service v place ⟨false, 0, none, 0⟩
  | file {bytes : Bytes} {mode : Mode} (h : v.node? place = some (.file bytes mode)) :
      Inspects service v place ⟨true, mode, some (service.sha256 bytes), bytes.length⟩

/-- A failing call does not say that a name is missing which is there. -/
def Honest (outside : Nat → Turn) : Prop :=
  ∀ n c v fault, (outside n).fault c v = some fault → fault.errno.code ≠ js "ENOENT"

theorem honest_still : Honest still := by
  intro n c v fault hfault
  cases hfault

section
variable {outside : Nat → Turn} (halone : Alone outside) {service : Service} {v : Volume}
include halone

theorem yields_hashedFrom {handle : Handle} {bytes : Bytes} {mode : Mode}
    (hnode : handle.node = .file bytes mode) {Q : Bytes → Volume → Prop} (hQ : Q bytes v) :
    ∀ (fuel position : Nat),
      Yields outside (hashedFrom handle fuel position (bytes.take position)) Q v
  | 0, position => yields_throw _
  | fuel + 1, position => by
      unfold hashedFrom
      split
      · exact yields_throw _
      refine yields_bind (yields_call halone fun chunk v' hread => ?_)
      simp only [perform, Handle.bytes, hnode, Prod.mk.injEq] at hread
      obtain ⟨hchunk, rfl⟩ := hread
      obtain rfl : (bytes.drop position).take hashChunkBytes = chunk := Except.ok.inj hchunk
      split
      · rename_i hnil
        have hend : bytes.drop position = [] := by
          rw [List.take_eq_nil_iff] at hnil
          exact hnil.resolve_left (by decide)
        rw [List.take_of_length_le (List.drop_eq_nil_iff.mp hend)]
        exact yields_pure hQ
      · have hnext : bytes.take position ++ (bytes.drop position).take hashChunkBytes =
            bytes.take (position + ((bytes.drop position).take hashChunkBytes).length) := by
          rw [List.take_add, List.length_take]
          congr 1
          rw [List.take_eq_take_min, List.length_drop, Nat.min_comm]
        rw [hnext]
        exact yields_hashedFrom hnode hQ fuel _

/-- The digest of the file that a path leads to. -/
theorem yields_sha256File {path : JsString} {place : Path} {bytes : Bytes} {mode : Mode}
    {portablePath : JsString} (hplace : ∀ place', v.locate true path = .ok place' → place' = place)
    (hnode : v.node? place = some (.file bytes mode)) {Q : JsString → Volume → Prop}
    (hQ : Q (service.sha256 bytes) v) :
    Yields outside (service.sha256File path portablePath) Q v := by
  unfold Service.sha256File
  refine yields_bind (yields_mapError ?_)
  refine yields_call halone fun handle v' hopen => ?_
  obtain ⟨rfl, hlocate, hfound⟩ := perform_openRead.mp hopen
  have hhandle : handle.node = .file bytes mode := by
    rw [hplace _ hlocate, hnode] at hfound
    exact (Option.some.inj hfound).symm
  refine yields_bind (yields_tryFinally ?_)
  refine yields_hashedFrom halone hhandle ?_ _ 0
  refine yields_call halone fun _ v' hclose => ?_
  obtain rfl : v = v' := congrArg Prod.snd hclose
  exact yields_pure hQ

variable (hhonest : Honest outside)
include hhonest

theorem yields_inspectWriteTarget {dir : Path} (hdir : v.Stands dir) {name : JsString}
    (hname : Plain name) {path : JsString} {Q : WriteTargetState → Volume → Prop}
    (hQ : ∀ state, Name.size (scalars name) ≤ nameMax → Inspects service v (dir ++ [scalars name]) state →
      Q state v) :
    Yields outside (service.inspectWriteTarget (target dir [name]) path) Q v := by
  have hcomponents : components (scalars (target dir [name])) = dir ++ [scalars name] :=
    components_target hdir.plain fun s hs => List.mem_singleton.mp hs ▸ hname
  obtain ⟨jump, hjump⟩ := Volume.locate_components hdir hcomponents false
  obtain ⟨jump', hjump'⟩ := Volume.locate_components hdir hcomponents true
  unfold Service.inspectWriteTarget
  refine yields_bind (yields_catch halone (by simp) (fun stats v' hlstat => ?_) fun e hfails => ?_)
  · obtain ⟨rfl, place, node, hlocate, hnode, rfl⟩ := perform_lstat.mp hlstat
    obtain ⟨-, hlong⟩ | ⟨hsize, hshort⟩ := steps_single v false jump dir hname.name.ne_dotDot
    · rw [hjump, hlong] at hlocate
      cases hlocate
    obtain rfl : dir ++ [scalars name] = place := by
      rw [hjump, hshort fun _ _ => rfl] at hlocate
      exact Except.ok.inj hlocate
    refine yields_bind (yields_failWhen fun hsymlink => ?_)
    refine yields_bind (yields_failWhen fun hfile => ?_)
    cases node with
    | file bytes mode =>
        have hplace : ∀ place', v.locate true (target dir [name]) = .ok place' →
            place' = dir ++ [scalars name] := by
          intro place' hlocate'
          rw [hjump', Volume.steps_last hname.name.ne_dotDot hsize (by simp [hnode])] at hlocate'
          exact (Except.ok.inj hlocate').symm
        refine yields_bind (yields_sha256File halone hplace hnode (yields_pure ?_))
        have hmode : BitVec.ofNat 12 (Node.file bytes mode).stats.mode = mode := by
          apply BitVec.eq_of_toNat_eq
          simp only [Node.stats, BitVec.toNat_ofNat]
          have := mode.isLt
          omega
        rw [hmode]
        exact hQ _ hsize (.file hnode)
    | directory => simp [Node.stats] at hfile
    | symlink target => simp [Node.stats] at hsymlink
    | other => simp [Node.stats] at hfile
  · split
    · rename_i henoent
      have hcode : e.code = js "ENOENT" := by simpa [hasErrnoCode] using henoent
      refine yields_pure (yields_pure ?_)
      obtain ⟨n, fault, hfault, rfl⟩ | hmissing := hfails
      · exact absurd hcode (hhonest n _ _ fault hfault)
      replace hmissing : (v.lookup false "lstat" (target dir [name])).map
          (fun found => found.2.stats) = .error e := hmissing
      unfold Volume.lookup at hmissing
      obtain ⟨-, hlong⟩ | ⟨hsize, hshort⟩ := steps_single v false jump dir hname.name.ne_dotDot
      · rw [hjump, hlong] at hmissing
        rw [← Except.error.inj hmissing] at hcode
        change js "ENAMETOOLONG" = js "ENOENT" at hcode
        exact absurd hcode (by decide)
      · rw [hjump, hshort fun _ _ => rfl] at hmissing
        cases hnode : v.node? (dir ++ [scalars name]) with
        | none => exact hQ _ hsize (.missing hnode)
        | some node =>
            simp only [hnode] at hmissing
            cases hmissing
    · exact yields_throw _

end

/-! ## Staging -/

/-- The temporary file has the content, and nothing else is changed. -/
structure Staged (v v' : Volume) (temp : Path) (content : Bytes) : Prop where
  free : v.node? temp = none
  file : ∃ mode, v'.node? temp = some (.file content mode)
  frame : ∀ path, path ≠ temp → v'.node? path = v.node? path

theorem Staged.keepsWays {v v' : Volume} {temp : Path} {content : Bytes}
    (h : Staged v v' temp content) : v.KeepsWays v' where
  directory path hnode := by
    rw [h.frame path fun heq => by simp [heq, h.free] at hnode, hnode]
  symlink path target hnode := by
    rw [h.frame path fun heq => by simp [heq, h.free] at hnode, hnode]

theorem Staged.ne_nil {v v' : Volume} {temp : Path} {content : Bytes}
    (h : Staged v v' temp content) : temp ≠ [] :=
  Volume.ne_nil_of_node? (v := v) (by simp [h.free])

/-- A change of the temporary file. -/
theorem Staged.edit {v v' : Volume} {temp : Path} {content content' : Bytes}
    (h : Staged v v' temp content) {handle : Handle} (hpath : handle.path = temp)
    {f : Bytes → Mode → Node} (hf : ∀ mode, ∃ mode', f content mode = .file content' mode') :
    Staged v (v'.edit handle f) temp content' := by
  obtain ⟨mode, hfile⟩ := h.file
  obtain ⟨mode', hmode'⟩ := hf mode
  have hne := h.ne_nil
  have hedit : v'.edit handle f = v'.put temp (.file content' mode') := by
    unfold Volume.edit
    rw [hpath, hfile, ← hmode']
  rw [hedit]
  refine ⟨h.free, ⟨mode', ?_⟩, fun path hpath => ?_⟩
  · rw [Volume.node?_put hne, if_pos rfl]
  · rw [Volume.node?_put hne, if_neg hpath, h.frame path hpath]

theorem perform_openExclusive {v v' : Volume} {p : JsString} {mode : Mode} {handle : Handle}
    (h : perform (.openExclusive p mode) v = (.ok handle, v')) :
    v.locate false p = .ok handle.path ∧ Staged v v' handle.path [] := by
  simp only [perform, Volume.openExclusive] at h
  split at h
  · cases h
  rename_i path hlocate
  split at h
  · cases h
  rename_i hfree
  cases h
  have hne : path ≠ [] := Volume.ne_nil_of_node? (v := v) (by simp [hfree])
  refine ⟨hlocate, hfree, ⟨mode &&& ~~~v.umask, ?_⟩, fun q hq => ?_⟩
  · rw [Volume.node?_put hne, if_pos rfl]
  · rw [Volume.node?_put hne, if_neg hq]

/-! ## Putting in place -/

/-- The content is at the place; at most the temporary file is changed too. -/
structure Placed (v v' : Volume) (temp place : Path) (content : Bytes) : Prop where
  file : ∃ mode, v'.node? place = some (.file content mode)
  frame : ∀ path, path ≠ place → path ≠ temp → v'.node? path = v.node? path

/-- What was at the place is no way to anywhere. -/
theorem Placed.keepsWays {v v' : Volume} {temp place : Path} {content : Bytes}
    (h : Placed v v' temp place content) (hfree : v.node? temp = none)
    (hplace : ∀ node, v.node? place = some node → ∃ bytes mode, node = .file bytes mode) :
    v.KeepsWays v' where
  directory path hnode := by
    rw [h.frame path ?_ fun heq => by simp [heq, hfree] at hnode, hnode]
    rintro rfl
    obtain ⟨bytes, mode, hfile⟩ := hplace _ hnode
    cases hfile
  symlink path target hnode := by
    rw [h.frame path ?_ fun heq => by simp [heq, hfree] at hnode, hnode]
    rintro rfl
    obtain ⟨bytes, mode, hfile⟩ := hplace _ hnode
    cases hfile

section
variable {v v' v'' : Volume} {temp place : Path} {content : Bytes} {old new : JsString}
  (hstaged : Staged v v' temp content) (hold : v.locate false old = .ok temp)
include hstaged hold

theorem Staged.lookup_temp (syscall : String) : ∃ mode, v'.lookup false syscall old =
    .ok (temp, .file content mode) := by
  obtain ⟨mode, hfile⟩ := hstaged.file
  exact ⟨mode, Volume.lookup_ok.mpr ⟨Volume.locate_keeps hstaged.keepsWays hold, hfile⟩⟩

variable (hnew : v'.locate false new = .ok place)
include hnew

theorem placed_link (h : perform (.link old new) v' = (.ok ⟨⟩, v'')) :
    Placed v v'' temp place content ∧ place ≠ temp := by
  obtain ⟨mode, hlookup⟩ := hstaged.lookup_temp hold "link"
  obtain ⟨mode', hfile⟩ := hstaged.file
  simp only [perform, Volume.link, hnew, hlookup] at h
  split at h
  · cases h
  rename_i hfree
  cases h
  have hne : place ≠ [] := Volume.ne_nil_of_node? (v := v') fun heq => by simp [heq] at hfree
  have hput := Volume.node?_put (v := v') hne (.file content mode)
  have htemp : place ≠ temp := by
    rintro rfl
    simp [hfile] at hfree
  refine ⟨⟨⟨mode, by rw [hput, if_pos rfl]⟩, fun path hplace hpath => ?_⟩, htemp⟩
  rw [hput, if_neg hplace, hstaged.frame path hpath]

theorem placed_rename (h : perform (.rename old new) v' = (.ok ⟨⟩, v'')) :
    Placed v v'' temp place content := by
  obtain ⟨mode, hlookup⟩ := hstaged.lookup_temp hold "rename"
  simp only [perform, Volume.rename, hlookup, hnew] at h
  split at h
  · cases h
  rename_i hdirectory
  cases h
  have hne := Volume.ne_nil_of_node? hdirectory
  have hput := Volume.node?_put (v := v'.erase temp) hne (.file content mode)
  refine ⟨⟨mode, by rw [hput, if_pos rfl]⟩, fun path hplace hpath => ?_⟩
  rw [hput, if_neg hplace, Volume.node?_erase hstaged.ne_nil, if_neg hpath,
    hstaged.frame path hpath]

end

/-- The temporary file may be removed behind the link. -/
theorem Placed.rm {v v' v'' : Volume} {temp place : Path} {content : Bytes}
    (h : Placed v v' temp place content) (hplace : place ≠ temp) {p : JsString}
    (hp : v'.locate false p = .ok temp) (hrm : perform (.rm p) v' = (.ok ⟨⟩, v'')) :
    Placed v v'' temp place content := by
  simp only [perform, Volume.rm, hp] at hrm
  split at hrm
  · cases hrm
    exact h
  · cases hrm
  · cases hrm
    have hne : temp ≠ [] := Volume.ne_nil_of_node? (v := v') (by simp_all)
    have herase := Volume.node?_erase (v := v') hne
    obtain ⟨mode, hfile⟩ := h.file
    refine ⟨⟨mode, by rw [herase, if_neg hplace, hfile]⟩, fun path hne hpath => ?_⟩
    rw [herase, if_neg hpath, h.frame path hne hpath]

/-! ## A write -/

theorem Inspects.node {service : Service} {v : Volume} {place : Path} {state : WriteTargetState}
    (h : Inspects service v place state) :
    ∀ node, v.node? place = some node → ∃ bytes mode, node = .file bytes mode := by
  intro node hnode
  cases h with
  | missing hmissing => simp [hmissing] at hnode
  | file hfile => exact ⟨_, _, Option.some.inj (hnode.symm.trans hfile)⟩

/-- What a write that succeeds reports and leaves. -/
structure Written (service : Service) (options : WriteOptions) (v : Volume) (place : Path)
    (result : WriteResult) (v' : Volume) : Prop where
  path : result.path = options.path
  sha256 : result.sha256 = service.sha256 options.content
  bytesWritten : result.bytesWritten = options.content.length
  file : ∃ mode, v'.node? place = some (.file options.content mode)
  ways : v.KeepsWays v'

section
variable {outside : Nat → Turn} (halone : Alone outside) {service : Service} {v : Volume}
include halone

theorem answer_vol {c : Call} (hwrite : ∀ handle content, c ≠ .writeFile handle content)
    (hc : ∀ v, (perform c v).2 = v) (w : World) : (answer outside c w).2.vol = w.vol := by
  cases hanswer : (answer outside c w).1 with
  | ok a => exact (congrArg Prod.snd (answer_ok halone hanswer)).symm.trans (hc _)
  | error e => exact (answer_error halone hanswer).2 hwrite

theorem wp_syncDirectory (directory : JsString) (w : World) :
    Async.Wp (answer outside) (syncDirectoryBestEffort directory)
      (fun _ w' => w'.vol = w.vol) (fun _ _ => False) w := by
  have hopen := answer_vol halone (c := .openRead directory) (by simp) (fun _ => rfl) w
  refine Async.wp_bind.mpr (Async.wp_tryCatch.mpr (Async.wp_map.mpr (Async.wp_request.mpr ?_)))
  cases hanswer : (answer outside (.openRead directory) w).1 with
  | error e => exact hopen
  | ok handle =>
      have hclose : ∀ (synced : Bool) (w' : World), w'.vol = w.vol →
          Async.Wp (answer outside)
            (do (Handle.close handle).ignoreErrors; return synced)
            (fun _ w' => w'.vol = w.vol) (fun _ _ => False) w' := by
        intro synced w' hw'
        have hvol := answer_vol halone (c := .close handle) (by simp) (fun _ => rfl) w'
        refine Async.wp_bind.mpr (Async.wp_ignoreErrors.mpr (Async.wp_request.mpr ?_))
        split <;> exact hvol.trans hw'
      have hsync := answer_vol halone (c := .sync handle) (by simp) (fun _ => rfl)
        (answer outside (.openRead directory) w).2
      refine Async.wp_bind.mpr (Async.wp_tryCatch.mpr (Async.wp_map.mpr (Async.wp_request.mpr ?_)))
      split
      · exact hclose _ _ (hsync.trans hopen)
      · exact hclose _ _ (hsync.trans hopen)

/-- Nothing comes of a failing sync. -/
theorem yields_syncDirectory {directory : JsString} {Q : Bool → Volume → Prop}
    (hQ : ∀ synced, Q synced v) :
    Yields outside (tryCatch (syncDirectoryBestEffort directory) fun _ => pure false) Q v := by
  refine ⟨?_⟩
  rintro w rfl
  refine Async.wp_tryCatch.mpr ((wp_syncDirectory halone directory w).mono ?_ fun _ _ => False.elim)
  intro synced w' hw'
  rw [hw']
  exact hQ synced

theorem yields_stageContent {handle : Handle} {temp : Path} (hpath : handle.path = temp)
    {initial : WriteTargetState} {content : Bytes} {v' : Volume} (hstaged : Staged v v' temp [])
    {Q : PUnit → Volume → Prop} (hQ : ∀ v'', Staged v v'' temp content → Q ⟨⟩ v'') :
    Yields outside (tryFinally (stageContent handle initial content) (Handle.close handle)) Q v' := by
  have hwrite : ∀ {v' : Volume}, Staged v v' temp [] →
      Yields outside (Handle.writeFile handle content >>= fun _ => Handle.sync handle)
        (fun a v'' => Yields outside (Handle.close handle) (fun _ => Q a) v'') v' := by
    intro v' hstaged
    refine yields_bind (yields_call halone fun _ v'' hwrite => ?_)
    obtain rfl := congrArg Prod.snd hwrite
    refine yields_call halone fun _ v'' hsync => ?_
    obtain rfl := congrArg Prod.snd hsync
    refine yields_call halone fun _ v'' hclose => ?_
    obtain rfl := congrArg Prod.snd hclose
    exact hQ _ (hstaged.edit hpath fun mode => ⟨mode, rfl⟩)
  refine yields_tryFinally ?_
  unfold stageContent
  refine yields_bind ?_
  split
  · refine yields_call halone fun _ v'' hchmod => ?_
    obtain rfl := congrArg Prod.snd hchmod
    exact hwrite (hstaged.edit hpath fun mode => ⟨_, rfl⟩)
  · exact yields_pure (hwrite hstaged)

theorem yields_commitTemp {options : WriteOptions} {tempPath : JsString} {temp place : Path}
    {content : Bytes} {v' : Volume} (hstaged : Staged v v' temp content)
    (hold : v.locate false tempPath = .ok temp)
    (hnew : v'.locate false options.target = .ok place)
    (hplace : ∀ node, v.node? place = some node → ∃ bytes mode, node = .file bytes mode)
    {Q : PUnit → Volume → Prop} (hQ : ∀ v'', Placed v v'' temp place content → Q ⟨⟩ v'') :
    Yields outside (commitTemp options tempPath) Q v' := by
  unfold commitTemp
  split
  · refine yields_bind (yields_tryCatch (yields_call halone fun _ v'' hlink => ?_) fun e _ => ?_)
    · obtain ⟨hplaced, hne⟩ := placed_link hstaged hold hnew hlink
      have hold' := Volume.locate_keeps (hplaced.keepsWays hstaged.free hplace) hold
      exact yields_ignoreErrors_rm halone (fun _ hrm => hQ _ (hplaced.rm hne hold' hrm))
        (hQ _ hplaced)
    · split
      · exact yields_fail
      · exact yields_throw _
  · refine yields_mapError (yields_call halone fun _ v'' hrename => ?_)
    exact hQ _ (placed_rename hstaged hold hnew hrename)

variable (hhonest : Honest outside)
include hhonest

theorem yields_writeAtomic {uuid : JsString} {options : WriteOptions} {dir : Path}
    (hdir : v.Stands dir) {name : JsString} (hname : Plain name)
    (htarget : options.target = target dir [name]) {Q : WriteResult → Volume → Prop}
    (hQ : ∀ result v', Name.size (scalars name) ≤ nameMax →
      Written service options v (dir ++ [scalars name]) result v' → Q result v') :
    Yields outside (service.writeAtomic uuid options) Q v := by
  have hcomponents : components (scalars options.target) = dir ++ [scalars name] := by
    rw [htarget]
    exact components_target hdir.plain fun s hs => List.mem_singleton.mp hs ▸ hname
  unfold Service.writeAtomic
  rw [htarget]
  refine yields_bind ?_
  refine yields_inspectWriteTarget halone hhonest hdir hname fun initial hsize hinitial => ?_
  refine yields_bind (yields_ofExcept fun _ _ => ?_)
  refine yields_localTryFinally ?_
  unfold Service.writeBody
  refine localYields_bind (localYields_lift (yields_mapError ?_))
  refine yields_call halone fun handle v₁ hopen => ?_
  obtain ⟨hold, hcreated⟩ := perform_openExclusive hopen
  refine localYields_bind (localYields_assign ?_)
  refine localYields_bind (localYields_lift ?_)
  refine yields_stageContent halone rfl hcreated fun v₂ hstaged => ?_
  have hdir₂ := hdir.keeps hstaged.keepsWays
  have hnew : v₂.locate false options.target = .ok (dir ++ [scalars name]) := by
    obtain ⟨jump, hjump⟩ := Volume.locate_components hdir₂ hcomponents false
    rw [hjump, Volume.steps_last hname.name.ne_dotDot hsize fun _ _ => rfl]
  refine localYields_bind (localYields_lift ?_)
  rw [htarget]
  refine yields_inspectWriteTarget halone hhonest hdir₂ hname fun before _ _ => ?_
  refine localYields_bind (localYields_lift (yields_ofExcept fun _ _ => ?_))
  refine localYields_bind (localYields_lift ?_)
  refine yields_commitTemp halone hstaged hold hnew hinitial.node fun v₃ hplaced => ?_
  refine localYields_bind (localYields_assign ?_)
  refine localYields_bind (localYields_lift ?_)
  refine yields_syncDirectory halone fun synced => ?_
  refine localYields_pure (yields_pure ?_)
  exact hQ _ _ hsize ⟨rfl, rfl, rfl, hplaced.file, hplaced.keepsWays hcreated.free hinitial.node⟩

end

/-! ## The path of a request -/

/-- The request path names an entry of a directory of the workspace. -/
structure Service.Aims (service : Service) (v : Volume) (id requestPath : JsString) (root : Path)
    (segs : List JsString) (dir : Path) (name : JsString) : Prop where
  available : service.Root v id root
  path : normalizeRelativePath requestPath false = .ok (portable (segs ++ [name]))
  segments : ∀ s ∈ segs ++ [name], Segment s
  leads : Leads v root segs dir
  stands : v.Stands dir

section
variable {service : Service} {v : Volume} {id requestPath : JsString} {root : Path}
  {segs : List JsString} {dir : Path} {name : JsString}

theorem Service.Aims.plain (h : service.Aims v id requestPath root segs dir name) :
    ∀ s ∈ segs ++ [name], Plain s := fun s hs => (h.segments s hs).toPlain

theorem Service.Aims.plain_name (h : service.Aims v id requestPath root segs dir name) :
    Plain name :=
  h.plain name (by simp)

/-- The path leads to the entry, whatever was changed behind the directories
and links that it goes through. -/
theorem Service.Aims.leads_entry (h : service.Aims v id requestPath root segs dir name)
    (hsize : Name.size (scalars name) ≤ nameMax) {v' : Volume} (hways : v.KeepsWays v')
    {node : Node} (hnode : v'.node? (dir ++ [scalars name]) = some node)
    (hlink : ∀ target, node ≠ .symlink target) :
    service.Root v' id root ∧ Leads v' root (segs ++ [name]) (dir ++ [scalars name]) := by
  have hroot : v'.Stands root := (h.stands.of_prefix h.leads.inside).keeps hways
  have hplain := h.plain
  have hsegs : ∀ s ∈ segs, Plain s := fun s hs => hplain s (List.mem_append_left _ hs)
  have hlands : v'.Lands true (dir ++ [scalars name]) :=
    ⟨(h.stands.keeps hways).concat h.plain_name.name hsize, fun target htarget =>
      absurd (Option.some.inj (hnode.symm.trans htarget)) (hlink target)⟩
  refine ⟨⟨h.available.record, hroot.lands true, by simp [hroot.node]⟩, ?_, by simp [hnode],
    h.leads.inside.trans (List.prefix_append _ _)⟩
  exact h.leads.below hways h.available.lands.plain hplain h.stands.node (by simp) hlands

theorem yields_writeTarget {outside : Nat → Turn} (halone : Alone outside) {path verb}
    (hroot : service.Root v id root) (hpath : normalizeRelativePath requestPath false = .ok path)
    {Q : JsString × JsString → Volume → Prop}
    (hQ : ∀ segs dir name, service.Aims v id requestPath root segs dir name →
      path = portable (segs ++ [name]) → Q (dir.text, target dir [name]) v) :
    Yields outside (writeTarget root.text path verb) Q v := by
  obtain ⟨segs, name, hsegments, rfl⟩ := normalizeRelativePath_last hpath
  have hplain : ∀ s ∈ segs, Plain s := fun s hs =>
    (hsegments s (List.mem_append_left _ hs)).toPlain
  have hname : Plain name := (hsegments name (by simp)).toPlain
  unfold writeTarget
  rw [dirname_portable hplain hname, basename_portable hname]
  refine yields_bind (yields_resolveExistingPath halone hroot.lands.plain hplain
    fun dir hleads => ?_)
  refine yields_bind (yields_mapError ?_)
  refine yields_call halone fun stats v' hlstat => ?_
  obtain ⟨rfl, place, node, hlocate, hnode, rfl⟩ := perform_lstat.mp hlstat
  refine yields_bind (yields_failWhen fun hdirectory => ?_)
  have hlands : v.Lands false dir := ⟨hleads.lands.toReached, fun _ _ => rfl⟩
  obtain rfl : dir = place := by
    rw [Volume.locate_text hlands] at hlocate
    exact Except.ok.inj hlocate
  have hstands : v.Stands dir := by
    refine ⟨hlands.toReached, ?_⟩
    cases node with
    | directory => exact hnode
    | file bytes mode => simp [Node.stats] at hdirectory
    | symlink target => simp [Node.stats] at hdirectory
    | other => simp [Node.stats] at hdirectory
  refine yields_bind (yields_failWhen fun _ => yields_pure ?_)
  rw [show join dir.text name = target dir [name] from join_text hlands.plain hname]
  exact hQ segs dir name ⟨hroot, hpath, hsegments, hleads, hstands⟩ rfl

theorem yields_prepareWrite {outside : Nat → Turn} (halone : Alone outside) {request : WriteRequest}
    {Q : WriteOptions → Volume → Prop}
    (hQ : ∀ root segs dir name expected,
      service.Aims v request.workspaceId request.path root segs dir name →
      Q ⟨portable (segs ++ [name]), target dir [name], dir.text, encodeUtf8 request.content,
        expected⟩ v) :
    Yields outside (service.prepareWrite request) Q v := by
  unfold Service.prepareWrite
  refine yields_bind (yields_failWhen fun _ => ?_)
  refine yields_bind (yields_ofExcept fun expected _ => ?_)
  refine yields_bind (yields_accessWorkspace halone fun root hroot => ?_)
  refine yields_bind (yields_ofExcept fun path hpath => ?_)
  refine yields_bind (yields_writeTarget halone hroot hpath fun segs dir name haims heq => ?_)
  subst heq
  exact yields_pure (hQ root segs dir name expected haims)

/-- A write that succeeds leaves its content where the path leads. -/
theorem yields_write {outside : Nat → Turn} (halone : Alone outside) (hhonest : Honest outside)
    {uuid : JsString} {request : WriteRequest} :
    Yields outside (service.write uuid request)
      (fun result v' => result.sha256 = service.sha256 (encodeUtf8 request.content) ∧
        result.bytesWritten = (encodeUtf8 request.content).length ∧
        ∃ handle mode, service.Opens v' request.workspaceId request.path result.path handle ∧
          handle.node = .file (encodeUtf8 request.content) mode) v := by
  unfold Service.write
  refine yields_bind (yields_prepareWrite halone fun root segs dir name expected haims => ?_)
  refine yields_writeAtomic halone hhonest haims.stands haims.plain_name rfl
    fun result v' hsize hwritten => ⟨hwritten.sha256, hwritten.bytesWritten, ?_⟩
  obtain ⟨mode, hnode⟩ := hwritten.file
  obtain ⟨hroot, hleads⟩ := haims.leads_entry hsize hwritten.ways hnode (by simp)
  exact ⟨⟨dir ++ [scalars name], .file (encodeUtf8 request.content) mode⟩, mode,
    ⟨root, segs ++ [name], hroot, by rw [hwritten.path]; exact haims.path, hwritten.path,
      haims.plain, hleads, hnode⟩, rfl⟩

end

/-! ## Reading back -/

/-- A string that the encoder and the decoder keep. -/
theorem withoutMark_scalars_iff (s : JsString) :
    (withoutMark (scalars s)).flatMap units = s ↔ WellFormed s ∧ s.head? ≠ some 0xFEFF := by
  have hmark : s.head? = some 0xFEFF → (scalars s).head? = some byteOrderMark := by
    intro hhead
    obtain ⟨rest, rfl⟩ := List.head?_eq_some_iff.mp hhead
    have hnot : ¬ (isHigh 0xFEFF = true ∧ startsLow rest = true) := by
      rintro ⟨hhigh, -⟩
      exact absurd hhigh (by decide)
    rw [scalars, codePoints_cons_of_not_pair hnot]
    rfl
  constructor
  · intro h
    have hscalars : scalars s = withoutMark (scalars s) := by
      conv_lhs => rw [← h]
      exact scalars_flatMap_units _
    refine ⟨h ▸ wellFormed_flatMap_units _, fun hhead => ?_⟩
    obtain ⟨rest, hrest⟩ := List.head?_eq_some_iff.mp (hmark hhead)
    rw [withoutMark, if_pos (hmark hhead), hrest, List.tail_cons] at hscalars
    simpa using congrArg List.length hscalars
  · rintro ⟨hwell, hhead⟩
    have hkeep : withoutMark (scalars s) = scalars s := by
      refine if_neg fun hscalars => hhead ?_
      obtain ⟨rest, hrest⟩ := List.head?_eq_some_iff.mp hscalars
      rw [← hwell.flatMap_units_scalars, hrest, List.flatMap_cons]
      rfl
    rw [hkeep, hwell.flatMap_units_scalars]

/-- Only a NUL is written as a zero byte. -/
theorem zero_notMem_encodeUtf8 {s : JsString} (h : (0 : UInt16) ∉ s) : (0 : UInt8) ∉ encodeUtf8 s := by
  intro hmem
  obtain ⟨c, hc, hbyte⟩ := List.mem_flatMap.mp hmem
  have hzero : c = '\x00' := Char.toNat_inj.mp (toNat_of_mem_utf8EncodeChar (by decide) hbyte)
  exact h (mem_scalars (by decide) (hzero ▸ hc))

/-- A read of the path returns the content that was written, and the result of
the write is about the bytes of the file. -/
def ReadsBack (service : Service) (v : Volume) (request : WriteRequest) (result : WriteResult) :
    Prop :=
  ∃ page, Settles (service.read ⟨request.workspaceId, request.path, some (.ofNat 0),
      some (.ofNat maxReadBytes)⟩) v page v ∧
    page.classification = .text ∧ page.content = some request.content ∧
    ∃ handle bytes mode, service.Opens v request.workspaceId request.path page.path handle ∧
      handle.node = .file bytes mode ∧ result.sha256 = service.sha256 bytes ∧
      result.bytesWritten = bytes.length

/-- The page that a read returns for a file of encoded text. -/
theorem rangeOf_encoded (path : JsString) {content : JsString} (hnul : (0 : UInt16) ∉ content)
    (hsize : (encodeUtf8 content).length ≤ maxReadBytes) :
    (rangeOf path (encodeUtf8 content) 0 maxReadBytes).classification = .text ∧
      (rangeOf path (encodeUtf8 content) 0 maxReadBytes).content =
        some ((withoutMark (scalars content)).flatMap units) := by
  have hdata : ((encodeUtf8 content).drop 0).take maxReadBytes = encodeUtf8 content := by
    rw [List.drop_zero, List.take_of_length_le hsize]
  have hdecode : decodeUtf8Fatal (encodeUtf8 content) =
      some ((withoutMark (scalars content)).flatMap units) :=
    (decodeUtf8Fatal_eq_some_iff _ _).mpr ⟨scalars content, rfl, rfl⟩
  have htext : classifyBuffer (encodeUtf8 content) = .text :=
    classifyBuffer_eq_text.mpr ⟨zero_notMem_encodeUtf8 hnul, by simp [hdecode]⟩
  simp only [rangeOf, hdata, htext, hdecode, if_true, and_self]

theorem settles_read_whole {service : Service} {v : Volume} {id requestPath path : JsString}
    {handle : Handle} {bytes : Bytes} {mode : Mode}
    (h : service.Opens v id requestPath path handle) (hnode : handle.node = .file bytes mode)
    (hsize : bytes.length ≤ maxReadBytes) :
    Settles (service.read ⟨id, requestPath, some (.ofNat 0), some (.ofNat maxReadBytes)⟩) v
      (rangeOf path bytes 0 maxReadBytes) v :=
  settles_read h hnode (hsize.trans (by decide))
    (boundedInteger_ok (integer?_ofNat (by decide)) (by decide) (by decide) (by decide))
    (boundedInteger_ok (integer?_ofNat (by decide)) (by decide) (by decide) (by decide))

/-- What is read back of a file that has the encoded content. -/
theorem ReadsBack.kept {service : Service} {v : Volume} {request : WriteRequest}
    {result : WriteResult} (h : ReadsBack service v request result) {path : JsString}
    {handle : Handle} {mode : Mode}
    (hopens : service.Opens v request.workspaceId request.path path handle)
    (hnode : handle.node = .file (encodeUtf8 request.content) mode)
    (hnul : (0 : UInt16) ∉ request.content)
    (hsize : (encodeUtf8 request.content).length ≤ maxReadBytes) :
    (withoutMark (scalars request.content)).flatMap units = request.content := by
  obtain ⟨page, hpage, -, hsame, -⟩ := h
  rw [hpage.value (settles_read_whole hopens hnode hsize),
    (rangeOf_encoded path hnul hsize).2] at hsame
  exact Option.some.inj hsame

/-- A write that succeeds, whatever calls failed in it: a read of the same path
returns the content just when no surrogate in it stands alone and it does not
start with a byte order mark. -/
theorem write_read {outside : Nat → Turn} (halone : Alone outside) (hhonest : Honest outside)
    {service : Service} {uuid : JsString} {request : WriteRequest} {w w' : World}
    {result : WriteResult}
    (hrun : Prog.run (answer outside) (service.write uuid request).run w = (.ok result, w'))
    (hnul : (0 : UInt16) ∉ request.content)
    (hsize : (encodeUtf8 request.content).length ≤ maxReadBytes) :
    ReadsBack service w'.vol request result ↔
      WellFormed request.content ∧ request.content.head? ≠ some 0xFEFF := by
  obtain ⟨hsha, hbytes, handle, mode, hopens, hnode⟩ :=
    (yields_write halone hhonest).of_run hrun
  rw [← withoutMark_scalars_iff]
  refine ⟨fun hreads => hreads.kept hopens hnode hnul hsize, fun hkept => ?_⟩
  obtain ⟨htext, hcontent⟩ := rangeOf_encoded result.path hnul hsize
  exact ⟨_, settles_read_whole hopens hnode hsize, htext, by rw [hcontent, hkept], handle, _, mode,
    hopens, hnode, hsha, hbytes⟩

/-- The write of a new file in a workspace that nothing disturbs. -/
def newFile (content : JsString) : Except Thrown WriteResult × World :=
  Prog.run (answer still) (oneWorkspace.write (js "u") ⟨js "ws", js "b", content, none⟩).run
    ⟨oneFile [], []⟩

theorem write_read_new :
    ReadsBack oneWorkspace (newFile (js "é")).2.vol ⟨js "ws", js "b", js "é", none⟩
      ⟨js "b", true, none, [], 2, .fileAndDirectory⟩ := by
  have hresult : (newFile (js "é")).1 = .ok ⟨js "b", true, none, [], 2, .fileAndDirectory⟩ := by
    decide +kernel
  have hrun : Prog.run (answer still)
      (oneWorkspace.write (js "u") ⟨js "ws", js "b", js "é", none⟩).run ⟨oneFile [], []⟩ =
        (.ok ⟨js "b", true, none, [], 2, .fileAndDirectory⟩, (newFile (js "é")).2) :=
    Prod.ext hresult rfl
  exact (write_read alone_still honest_still hrun (by decide) (by decide)).mpr (by decide)

/-- A byte order mark is not read back. -/
theorem write_read_marked : ∃ result,
    (newFile (0xFEFF :: js "a")).1 = .ok result ∧
    ¬ ReadsBack oneWorkspace (newFile (0xFEFF :: js "a")).2.vol
      ⟨js "ws", js "b", 0xFEFF :: js "a", none⟩ result := by
  have hresult : (newFile (0xFEFF :: js "a")).1 =
      .ok ⟨js "b", true, none, [], 4, .fileAndDirectory⟩ := by
    decide +kernel
  have hrun : Prog.run (answer still)
      (oneWorkspace.write (js "u") ⟨js "ws", js "b", 0xFEFF :: js "a", none⟩).run
      ⟨oneFile [], []⟩ = (.ok ⟨js "b", true, none, [], 4, .fileAndDirectory⟩,
        (newFile (0xFEFF :: js "a")).2) := Prod.ext hresult rfl
  obtain ⟨-, -, handle, mode, hopens, hnode⟩ :=
    (yields_write alone_still honest_still).of_run hrun
  refine ⟨_, hresult, fun hreads => ?_⟩
  exact absurd (hreads.kept hopens hnode (by decide) (by decide)) (by decide)

end Benchhand.Filesystem
