/-
Benchhand.Filesystem.UpdatesTheorems — no concurrent update is lost.

An operation that resolves has replaced the file whose digest it reports, and
one that rejects has replaced nothing (`updates_operation`). The operations of a
key see what they make of the volume one after the other, so what each of them
reports as the previous content is what the one before it has left
(`updates_chained`).
-/
import Benchhand.Filesystem.ConcurrentTheorems
import Benchhand.Filesystem.PatchBytesTheorems

namespace Benchhand.Filesystem

open Text Posix Process

/-! ## What a write replaces -/

section
variable {service : Service} {v : Volume} {dir : Path} {name : JsString}

/-- The digest of a file. -/
def Service.nodeDigest (service : Service) : Option Node → Option JsString
  | some (.file bytes _) => some (service.sha256 bytes)
  | _ => none

/-- The digest of an entry of a directory. -/
theorem digestAt_entry (hdir : v.Stands dir) (hname : Plain name) :
    service.digestAt false (target dir [name]) v =
      if nameMax < Name.size (scalars name) then none
      else service.nodeDigest (v.node? (dir ++ [scalars name])) := by
  unfold Service.digestAt Volume.lookup
  rw [locate_entry hdir hname Bool.noConfusion]
  by_cases hsize : nameMax < Name.size (scalars name)
  · rw [if_pos hsize, if_pos hsize]
  · rw [if_neg hsize, if_neg hsize]
    dsimp only
    cases v.node? (dir ++ [scalars name]) with
    | none => rfl
    | some node => cases node <;> rfl

theorem digestAt_file (hdir : v.Stands dir) (hname : Plain name)
    (hsize : Name.size (scalars name) ≤ nameMax) {bytes : Bytes} {mode : Mode}
    (hfile : v.node? (dir ++ [scalars name]) = some (.file bytes mode)) :
    service.digestAt false (target dir [name]) v = some (service.sha256 bytes) := by
  rw [digestAt_entry hdir hname, if_neg (Nat.not_lt.mpr hsize), hfile]
  rfl

/-- The digest that an inspection finds. -/
theorem Inspects.digest (hdir : v.Stands dir) (hname : Plain name)
    (hsize : Name.size (scalars name) ≤ nameMax) {state : WriteTargetState}
    (h : Inspects service v (dir ++ [scalars name]) state) :
    (if state.existing then state.sha256 else none) =
      service.digestAt false (target dir [name]) v := by
  rw [digestAt_entry hdir hname, if_neg (Nat.not_lt.mpr hsize)]
  cases h with
  | missing hfree =>
      rw [hfree]
      rfl
  | file hfile =>
      rw [hfile]
      rfl

theorem digestAt_congr {u : Volume} (hdir : v.Stands dir) (hdir' : u.Stands dir)
    (hname : Plain name) (h : v.node? (dir ++ [scalars name]) = u.node? (dir ++ [scalars name])) :
    service.digestAt false (target dir [name]) v =
      service.digestAt false (target dir [name]) u := by
  rw [digestAt_entry hdir hname, digestAt_entry hdir' hname, h]

end

section
variable {outside : Nat → Turn} (halone : Alone outside) (hhonest : Honest outside)
  {service : Service} {v : Volume} {uuid : JsString}
include halone hhonest

/-- A write that succeeds reports the digest of what it has replaced. -/
theorem yields_writeAtomic_previous {x : Spot} {options : WriteOptions} (hdir : v.Stands x.dir)
    (hfits : x.Fits service uuid options) :
    Yields outside (service.writeAtomic uuid options)
      (fun result _ => result.previousSha256 =
        service.digestAt false (target x.dir [x.name]) v) v := by
  unfold Service.writeAtomic
  rw [hfits.target]
  refine yields_bind ?_
  refine yields_inspectWriteTarget halone hhonest hdir x.plainName fun initial hsize hinitial => ?_
  refine yields_bind (yields_ofExcept fun _ _ => yields_localTryFinally ?_)
  unfold Service.writeBody
  rw [hfits.temp, hfits.target]
  refine localYields_bind (localYields_lift (yields_mapError ?_))
  refine yields_call halone fun handle v₁ hopen => ?_
  obtain ⟨hold, hcreated⟩ := perform_openExclusive hopen
  have hpath : handle.path = x.staged := locate_name hdir x.plainTemp hold
  refine localYields_bind (localYields_assign ?_)
  refine localYields_bind (localYields_lift ?_)
  refine yields_stageContent halone rfl hcreated fun v₂ hstaged => ?_
  have hdir₂ := hdir.keeps hstaged.keepsWays
  have hplace : v₂.node? x.place = v.node? x.place :=
    hstaged.frame _ (hpath ▸ x.staged_ne_place.symm)
  refine localYields_bind (localYields_lift ?_)
  refine yields_inspectWriteTarget halone hhonest hdir₂ x.plainName fun before _ hbefore => ?_
  have hdigest := (hbefore.digest hdir₂ x.plainName hsize).trans
    (digestAt_congr hdir₂ hdir x.plainName hplace)
  refine localYields_bind (localYields_lift (yields_ofExcept fun _ _ => ?_))
  refine localYields_bind (localYields_lift ?_)
  have hnew : v₂.locate false options.target = .ok x.place := by
    rw [hfits.target, locate_entry hdir₂ x.plainName Bool.noConfusion, if_neg (Nat.not_lt.mpr hsize)]
    rfl
  refine yields_commitTemp halone hstaged hold hnew hinitial.node fun v₃ hplaced => ?_
  refine localYields_bind (localYields_assign ?_)
  refine localYields_bind (localYields_lift ?_)
  exact yields_syncDirectory halone fun synced => localYields_pure (yields_pure hdigest)

/-- A write that succeeds has put its own digest in the place of the one it
reports. -/
theorem yields_writeSpot {x : Spot} {options : WriteOptions} (hdir : v.Stands x.dir)
    (hfits : x.Fits service uuid options) :
    Yields outside (service.writeAtomic uuid options)
      (fun result v' =>
        result.previousSha256 = service.digestAt false (target x.dir [x.name]) v ∧
        service.digestAt false (target x.dir [x.name]) v' = some result.sha256) v := by
  have hprevious := yields_writeAtomic_previous halone hhonest hdir hfits
  have hwritten : Yields outside (service.writeAtomic uuid options)
      (fun result v' => service.digestAt false (target x.dir [x.name]) v' = some result.sha256)
      v := by
    refine yields_writeAtomic halone hhonest hdir x.plainName hfits.target
      fun result v' hsize hwritten => ?_
    obtain ⟨mode, hfile⟩ := hwritten.file
    rw [digestAt_file (hdir.keeps hwritten.ways) x.plainName hsize hfile, hwritten.sha256]
  exact ⟨fun w hw => ((hprevious.wp w hw).and (hwritten.wp w hw)).mono (fun _ _ h => h)
    fun _ _ _ => trivial⟩

theorem yields_operation {x : Spot} {prepared : Prepared} (hdir : v.Stands x.dir)
    (hat : prepared.At service uuid x) :
    Yields outside (prepared.operation service uuid)
      (fun result v' =>
        result.previousSha256 = service.digestAt false (target x.dir [x.name]) v ∧
        service.digestAt false (target x.dir [x.name]) v' = some result.sha256) v := by
  cases prepared with
  | write options =>
      exact yields_map (yields_writeSpot halone hhonest hdir (hat.fits rfl rfl))
  | patch options =>
      refine yields_map ?_
      unfold Service.patchOperation
      refine yields_bind (yields_patchedContent halone hhonest hdir x.plainName hat.target
        fun old mode source plan hsize hfile hsha _ _ => ?_)
      refine yields_bind (yields_tryCatch ?_ fun _ _ => yields_patchFailure)
      refine (yields_writeSpot halone hhonest hdir (hat.fits rfl rfl)).mono
        fun write v' hwrite => yields_pure ⟨?_, hwrite.2⟩
      rw [digestAt_file hdir x.plainName hsize hfile, hsha]
      rfl

end

/-! ## What a failure leaves -/

section
variable {outside : Nat → Turn} {service : Service} {uuid : JsString} {v : Volume} {x : Spot}
  {prepared : Prepared}

/-- An operation follows the protocol to its end. -/
theorem ended_operation (hat : prepared.At service uuid x) :
    Async.Wp (answer outside) (prepared.operation service uuid)
      (fun _ => Ended (target x.dir [x.name]) (target x.dir [x.temp]) true)
      (fun _ => Ended (target x.dir [x.name]) (target x.dir [x.temp]) false) ⟨v, []⟩ := by
  cases prepared with
  | write options =>
      have hfits : x.Fits service uuid options := hat.fits rfl rfl
      have hatomic : Async.Wp (answer outside) (service.writeAtomic uuid options) _ _ ⟨v, []⟩ :=
        wp_writeAtomic .start
      rw [hfits.target, hfits.temp] at hatomic
      exact Async.wp_map.mpr hatomic
  | patch options =>
      refine Async.wp_map.mpr ?_
      unfold Service.patchOperation
      rw [Async.wp_bind]
      refine (wp_looks (uses_patchedContent service options) .start).mono (fun found w₂ h₂ => ?_)
        fun _ w₂ h₂ => ⟨_, h₂, rfl, rfl⟩
      obtain ⟨content, editsApplied⟩ := found
      have hfits : x.Fits service uuid (Mutation.patched options content) := hat.fits rfl rfl
      rw [← hfits.target, ← hfits.temp] at h₂ ⊢
      rw [Async.wp_bind, Async.wp_tryCatch]
      refine (wp_writeAtomic h₂).mono (fun _ w₃ h₃ => h₃) fun error w₃ h₃ => ?_
      exact (wp_patchFailure h₃).mono (fun _ _ => False.elim) fun _ _ h₄ => h₄

/-- An operation that rejects leaves its target. -/
theorem kept_operation (halone : Alone outside) (hat : prepared.At service uuid x)
    {e : Thrown} {w : World}
    (hrun : Prog.run (answer outside) (prepared.operation service uuid).run ⟨v, []⟩ = (.error e, w))
    (hlocate : ∃ u : Volume, u.locate false (target x.dir [x.name]) = .ok x.place) :
    w.vol.node? x.place = v.node? x.place := by
  have hended : Async.Wp (answer outside) (prepared.operation service uuid) _ _ ⟨v, []⟩ :=
    ended_operation hat
  rw [Async.wp_iff, hrun] at hended
  obtain ⟨stage, hproceeds, hstage, hcommitted⟩ := hended
  have hchained : Chained outside v w.log w.vol := by
    rw [show w = (Prog.run (answer outside) (prepared.operation service uuid).run ⟨v, []⟩).2 from
      (congrArg Prod.snd hrun).symm]
    exact chained_run _ v
  have hnames : scalars x.name ≠ scalars x.temp := fun h => x.apart h.symm
  obtain ⟨u, hu⟩ := hlocate
  refine (allOrNothing_of_proceeds (endsWith_target x.plainDir x.plainName)
    (endsWith_target x.plainDir x.plainTemp) hnames hproceeds hstage hchained).kept ?_ u x.place hu
    fun n v' => by rw [halone n v']
  rw [hcommitted]
  exact Bool.false_ne_true

end

/-! ## Operations -/

/-- What an operation makes of the digest of its target: it has replaced what it
reports, or it has left it. -/
def Updates (service : Service) (key : JsString) (v : Volume) :
    Except Thrown MutationResult → Volume → Prop
  | .ok result, v' => result.previousSha256 = service.digestAt false key v ∧
      service.digestAt false key v' = some result.sha256
  | .error _, v' => service.digestAt false key v' = service.digestAt false key v

/-- An operation that runs by itself, whatever calls fail. -/
theorem updates_operation {service : Service} {uuid : JsString} {x : Spot} {prepared : Prepared}
    {v v' : Volume} (hdir : v.Stands x.dir) (hdir' : v'.Stands x.dir)
    (hat : prepared.At service uuid x) {faults : List (Option Fault)}
    (hhonest : ∀ f ∈ faults, HonestFault f) {result : Except Thrown MutationResult}
    (hsteps : Prog.Steps respond (prepared.operation service uuid).run v faults (.done result) v') :
    Updates service prepared.target v result v' := by
  obtain ⟨log, hrun⟩ := run_of_steps hsteps [] rfl
  rw [Prog.run_done] at hrun
  rw [hat.target]
  cases result with
  | ok result =>
      exact (yields_operation (alone_scripted faults) (honest_scripted hhonest) hdir hat).of_run hrun
  | error e =>
      have hkept : service.digestAt false (target x.dir [x.name]) v' =
          service.digestAt false (target x.dir [x.name]) v := by
        by_cases hsize : nameMax < Name.size (scalars x.name)
        · rw [digestAt_entry hdir' x.plainName, digestAt_entry hdir x.plainName, if_pos hsize,
            if_pos hsize]
        · refine digestAt_congr hdir' hdir x.plainName ?_
          refine kept_operation (alone_scripted faults) hat hrun ⟨v, ?_⟩
          rw [locate_entry hdir x.plainName Bool.noConfusion, if_neg hsize]
          rfl
      exact hkept

/-! ## One after the other -/

section
variable {service : Service} {v : Volume} {requests : List (JsString × Mutation)}

/-- Where the operation of a request works. -/
theorem Work.Sound.spot (hservice : service.Identified (requests.map Prod.fst))
    (hseparate : Separate requests) {work : Work} (h : work.Sound service v requests) :
    ∃ x : Spot, v.Stands x.dir ∧ work.prepared.At service work.uuid x ∧
      service.Territory (requests.map Prod.fst) work.prepared.target x.place := by
  obtain ⟨dir, name, ⟨root, segs, haims⟩, htarget, hparent, -⟩ := h.prepares
  obtain ⟨x, hdir, -, hat, hplace, -⟩ := exists_spot hservice (List.mem_map_of_mem h.asked)
    haims.stands.plain (requested_of_aims hseparate h.asked haims) htarget hparent
  exact ⟨x, hdir ▸ haims.stands, hat, hplace⟩

/-- What operations of one key report that run one after the other. -/
theorem replaces_of_serial (hservice : service.Identified (requests.map Prod.fst))
    (hseparate : Separate requests) {key : JsString}
    {entries : List (Work × Option (Settlement MutationResult Thrown))} {w u : Volume}
    (hserial : Serial respond (Kin v) w (entries.map fun e => e.1.strand service) u)
    (hsound : ∀ e ∈ entries, e.1.Sound service v requests)
    (hkey : ∀ e ∈ entries, e.1.prepared.target = key)
    (hsettled : ∀ e ∈ entries, ∀ outcome, e.2 = some outcome →
      ∃ result, e.1.rest = .done result ∧ outcome = settlement result)
    (hturns : entries.Pairwise fun e e' => e.2 = none → e'.2 = none)
    {results : List MutationResult}
    (hresults : entries.filterMap (fun e => e.2.bind Settlement.value?) = results) :
    Replaces (service.digestAt false key w) results ∧
      ((∀ e ∈ entries, e.2 = none → (e.1.strand service).Waiting) →
        service.digestAt false key u = leaves (service.digestAt false key w) results) := by
  subst hresults
  induction entries generalizing w with
  | nil =>
      cases hserial with
      | nil hw => exact ⟨.nil _, fun _ => rfl⟩
  | cons e entries ih =>
      obtain ⟨work, settled?⟩ := e
      obtain ⟨hfirst, hlater⟩ := List.pairwise_cons.mp hturns
      cases settled? with
      | none =>
          -- it has not settled, and so none of the later ones has
          have hnone : ∀ e ∈ (work, none) :: entries, e.2 = none :=
            List.forall_mem_cons.mpr ⟨rfl, fun e he => hfirst e he rfl⟩
          rw [List.filterMap_eq_nil_iff.mpr fun e he => by rw [hnone e he]; rfl]
          refine ⟨.nil _, fun hwaiting => ?_⟩
          rw [hserial.waiting fun t ht => ?_]
          · rfl
          · obtain ⟨e, he, rfl⟩ := List.mem_map.mp ht
            exact hwaiting e he (hnone e he)
      | some outcome =>
          obtain ⟨result, hrest, rfl⟩ := hsettled _ List.mem_cons_self outcome rfl
          obtain ⟨hsound, hsounds⟩ := List.forall_mem_cons.mp hsound
          obtain ⟨hkey, hkeys⟩ := List.forall_mem_cons.mp hkey
          cases hserial with
          | @cons _ w' _ _ _ hw hsteps hserial =>
              have hsteps' : Prog.Steps respond (work.prepared.operation service work.uuid).run w
                  work.faults (.done result) w' := hrest ▸ hsteps
              obtain ⟨x, hdir, hat, -⟩ := hsound.spot hservice hseparate
              have hupdates := updates_operation (hw.ways.stands hdir)
                (hserial.fit_first.ways.stands hdir) hat hsound.honest hsteps'
              obtain ⟨hreplaces, hlast⟩ := ih hserial hsounds hkeys
                (fun e he => hsettled e (List.mem_cons_of_mem _ he)) hlater
              rw [hkey] at hupdates
              cases result with
              | ok result =>
                  obtain ⟨hprevious, hnext⟩ := hupdates
                  rw [hnext] at hreplaces hlast
                  exact ⟨hprevious ▸ .cons hreplaces, fun hwaiting =>
                    hlast fun e he => hwaiting e (List.mem_cons_of_mem _ he)⟩
              | error e =>
                  have hkept : service.digestAt false key w' = service.digestAt false key w :=
                    hupdates
                  rw [hkept] at hreplaces hlast
                  exact ⟨hreplaces, fun hwaiting =>
                    hlast fun e he => hwaiting e (List.mem_cons_of_mem _ he)⟩

theorem fulfilled_eq (s : Concurrent) (key : JsString) : s.fulfilled key =
    (s.entries key).filterMap fun e => e.2.bind Settlement.value? := by
  unfold Concurrent.fulfilled
  rw [settled_eq, List.filterMap_filterMap]
  refine List.filterMap_congr fun e _ => ?_
  cases e.2 <;> rfl

end

/-- Requests that run at the same time lose no update: what an operation reports
as the previous content of its target is what the last one before it that
succeeded has written, or what was there at first; and when none is running, the
last content written is there. -/
theorem updates_chained {service : Service} (hpid : IsPid service.pid) {v : Volume}
    {actions : List ConcurrentAction}
    (hseparate : Separate (actions.filterMap ConcurrentAction.request?))
    (hhonest : ∀ a ∈ actions, a.Honest) {work : Work}
    (hwork : work ∈ (runFrom (Concurrent.step service) (Concurrent.start v) actions).works) :
    let s := runFrom (Concurrent.step service) (Concurrent.start v) actions
    let key := work.prepared.target
    Replaces (service.digestAt false key v) (s.fulfilled key) ∧
      (s.Quiet key → service.digestAt false key s.vol =
        leaves (service.digestAt false key v) (s.fulfilled key)) := by
  intro s key
  have hinv : s.Inv service v (actions.filterMap ConcurrentAction.request?) :=
    Concurrent.inv_of_actions hpid v hseparate hhonest
  have hservice := identified_of_separate hpid hseparate
  obtain ⟨x, hdir, hat, hplace⟩ := (hinv.works work hwork).spot hservice hseparate
  obtain ⟨u, hserial, hsame⟩ := hinv.serial key
  obtain ⟨hreplaces, hlast⟩ := replaces_of_serial hservice hseparate hserial
    (fun e he => (hinv.entry he).1) (fun e he => (hinv.entry he).2.1)
    (fun e he => (hinv.entry he).2.2) (hinv.turns key) (fulfilled_eq s key).symm
  refine ⟨hreplaces, fun hquiet => ?_⟩
  have hend := hlast fun e he => hinv.waits hquiet he
  have hkey : key = target x.dir [x.name] := hat.target
  rw [← hend, hkey]
  exact digestAt_congr (hsame.kin.ways.stands hdir) (hserial.fit_last.ways.stands hdir)
    x.plainName (hsame.agree _ hplace)

/-- The workspace, with lengths for digests. -/
def countedWorkspace : Service := { oneWorkspace with sha256 := fun bytes => decimal bytes.length }

open ConcurrentAction in
/-- Two requests replace an empty file, and the second one is the first in the
queue. -/
def twoWrites : List ConcurrentAction :=
  [request sampleUuid (.write ⟨js "ws", js "a", js "é", none⟩),
    request (js "7d444840-9dc0-11d1-b245-5ffdce74fad2") (.write ⟨js "ws", js "a", js "abc", none⟩),
    prepare 0 none, prepare 1 none, prepare 1 none, prepare 0 none, prepare 1 none,
    prepare 0 none, enter 1, enter 0, react .caught 0, react .start 0] ++
  List.replicate 17 (work 0 none) ++
  [settle 0, react .adopt 0, react .tail 0, react .caught 1, react .start 1] ++
  List.replicate 19 (work 1 none) ++ [settle 1]

theorem updates_chained_writes :
    let s := runFrom (Concurrent.step countedWorkspace) (Concurrent.start (oneFile [])) twoWrites
    let key := js "/ws/a"
    (s.fulfilled key).map (fun result => (result.previousSha256, result.sha256)) =
        [(some (js "0"), js "3"), (some (js "3"), js "2")] ∧
      Replaces (countedWorkspace.digestAt false key (oneFile [])) (s.fulfilled key) ∧
      countedWorkspace.digestAt false key s.vol =
        leaves (countedWorkspace.digestAt false key (oneFile [])) (s.fulfilled key) := by
  intro s key
  have hseparate : Separate (twoWrites.filterMap ConcurrentAction.request?) :=
    ⟨by decide +kernel, by decide +kernel, by decide +kernel⟩
  have hpid : IsPid countedWorkspace.pid := by decide
  have hresults : (s.fulfilled key).map (fun result => (result.previousSha256, result.sha256)) =
      [(some (js "0"), js "3"), (some (js "3"), js "2")] := by decide +kernel
  have hquiet : s.Quiet key := Concurrent.quiet_of_ended (by decide +kernel) key
  have hmem : key ∈ s.works.map fun work => work.prepared.target := by decide +kernel
  obtain ⟨work, hwork, hkey⟩ := List.mem_map.mp hmem
  obtain ⟨hreplaces, hlast⟩ := updates_chained hpid hseparate (by decide +kernel) hwork
  rw [hkey] at hreplaces hlast
  exact ⟨hresults, hreplaces, hlast hquiet⟩

end Benchhand.Filesystem
