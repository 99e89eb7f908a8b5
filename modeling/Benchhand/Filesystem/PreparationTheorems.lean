/-
Benchhand.Filesystem.PreparationTheorems — what a mutation finds before its turn.

A mutation finds its target by three lookups, and others may write between
them. The lookups go through directories and symbolic links only, and no write
and no patch changes these: so a mutation that has found its target has found
what it finds on any volume with the same ways (`prepares_of_returns`).
-/
import Benchhand.Filesystem.FootprintTheorems
import Benchhand.Filesystem.ListTheorems

namespace Benchhand.Filesystem

open Text Posix Process

/-! ## The same ways -/

section
variable {v v' : Volume}

theorem reached_keeps (hways : v.KeepsWays v') {place : Path} (h : v.Reached place) :
    v'.Reached place where
  plain := h.plain
  short := h.short
  directories dir name hdir := hways.directory dir (h.directories dir name hdir)

/-- What leads to a directory leads there again. -/
theorem locate_directory (hways : v.KeepsWays v') {p : JsString} {dir : Path}
    (h : v.locate true p = .ok dir) (hdir : v.node? dir = some .directory) :
    v'.locate true p = .ok dir := by
  have hstands : v.Stands dir := ⟨(Volume.lands_of_locate h).toReached, hdir⟩
  have hlands : v'.Lands true (dir ++ []) := by
    rw [List.append_nil]
    exact (hstands.keeps hways).lands true
  have hwalk := Volume.walk_append hways hdir (fun _ => rfl) hlands linkMax _ h
  rwa [List.append_nil, List.append_nil] at hwalk

theorem Service.Aims.keeps {service : Service} {id requestPath : JsString} {root : Path}
    {segs : List JsString} {dir : Path} {name : JsString} (hways : SameWays v v')
    (h : service.Aims v id requestPath root segs dir name) :
    service.Aims v' id requestPath root segs dir name := by
  have hroot : v'.Stands root := hways.stands (h.stands.of_prefix h.leads.inside)
  have hdir : v'.Stands dir := hways.stands h.stands
  refine ⟨⟨h.available.record, hroot.lands true, ?_⟩, h.path, h.segments,
    ⟨locate_directory hways.keeps h.leads.located h.stands.node, ?_, h.leads.inside⟩, hdir⟩
  · rw [hroot.node]
    rfl
  · rw [hdir.node]
    rfl

end

/-! ## Three lookups -/

section
variable {service : Service} {id root path : JsString} {trace : Trace Call Answer}

theorem returns_failWhen {condition : Bool} {code : ErrorCode} {path : Option JsString}
    {message : JsString} {a : PUnit} :
    Async.Returns (failWhen condition code path message) trace a ↔
      trace = [] ∧ condition = false := by
  cases condition with
  | false => exact Async.returns_pure.trans (and_congr_right' (iff_of_true rfl rfl))
  | true => exact iff_of_false Async.not_returns_throw fun h => absurd h.2 (by decide)

theorem returns_accessWorkspace (h : Async.Returns (service.accessWorkspace id) trace root) :
    service.resolveWorkspace id = .ok (some ⟨root, .available⟩) ∧
      trace = [⟨.realpath root, .ok root⟩] := by
  unfold Service.accessWorkspace at h
  split at h
  · exact absurd h Async.not_returns_throw
  · exact absurd h Async.not_returns_throw
  · rename_i workspace hrecord
    obtain ⟨_, _, _, rfl, hstatus, h₁⟩ := Async.returns_bind.mp h
    obtain ⟨_, _, canonical, rfl, hrealpath, h₂⟩ := Async.returns_bind.mp h₁
    obtain ⟨_, _, _, rfl, hpath, h₃⟩ := Async.returns_bind.mp h₂
    obtain ⟨rfl, havailable⟩ := returns_failWhen.mp hstatus
    obtain rfl := returns_call.mp (Async.returns_mapError.mp hrealpath)
    obtain ⟨rfl, hsame⟩ := returns_failWhen.mp hpath
    obtain ⟨rfl, rfl⟩ := Async.returns_pure.mp h₃
    rw [decide_eq_false_iff_not, not_not] at havailable hsame
    obtain ⟨canonicalPath, status⟩ := workspace
    obtain rfl : canonical = canonicalPath := hsame
    obtain rfl : status = .available := havailable
    exact ⟨hrecord, rfl⟩

/-- What `resolveExistingPath` looks up, as a string. -/
def resolved (root path : JsString) : JsString :=
  if path = dot then root else resolve (root :: (path.splitOn slash).filter fun s => s ≠ [])

theorem returns_resolveExistingPath {canonical : JsString}
    (h : Async.Returns (resolveExistingPath root path) trace canonical) :
    trace = [⟨.realpath (resolved root path), .ok canonical⟩] ∧
      isSameOrDescendant root canonical = true := by
  unfold resolveExistingPath at h
  obtain ⟨_, _, _, rfl, hbefore, h₁⟩ := Async.returns_bind.mp h
  obtain ⟨_, _, found, rfl, hrealpath, h₂⟩ := Async.returns_bind.mp h₁
  obtain ⟨_, _, _, rfl, hafter, h₃⟩ := Async.returns_bind.mp h₂
  obtain ⟨rfl, -⟩ := returns_failWhen.mp hbefore
  obtain rfl := returns_call.mp (Async.returns_mapError.mp hrealpath)
  obtain ⟨rfl, hinside⟩ := returns_failWhen.mp hafter
  obtain ⟨rfl, rfl⟩ := Async.returns_pure.mp h₃
  exact ⟨rfl, by simpa using hinside⟩

theorem returns_writeTarget {verb : String} {found : JsString × JsString}
    (h : Async.Returns (writeTarget root path verb) trace found) :
    ∃ parent stats, trace = [⟨.realpath (resolved root (dirname path)), .ok parent⟩,
        ⟨.lstat parent, .ok stats⟩] ∧
      isSameOrDescendant root parent = true ∧ stats.type = .directory ∧
      found = (parent, join parent (basename path)) := by
  unfold writeTarget at h
  obtain ⟨_, _, parent, rfl, hresolve, h₁⟩ := Async.returns_bind.mp h
  obtain ⟨_, _, stats, rfl, hlstat, h₂⟩ := Async.returns_bind.mp h₁
  obtain ⟨_, _, _, rfl, hdirectory, h₃⟩ := Async.returns_bind.mp h₂
  obtain ⟨_, _, _, rfl, htarget, h₄⟩ := Async.returns_bind.mp h₃
  obtain ⟨rfl, hinside⟩ := returns_resolveExistingPath hresolve
  obtain rfl := returns_call.mp (Async.returns_mapError.mp hlstat)
  obtain ⟨rfl, htype⟩ := returns_failWhen.mp hdirectory
  obtain ⟨rfl, -⟩ := returns_failWhen.mp htarget
  obtain ⟨rfl, rfl⟩ := Async.returns_pure.mp h₄
  rw [decide_eq_false_iff_not, not_not] at htype
  exact ⟨parent, stats, rfl, hinside, htype, rfl⟩

end

/-! ## Seen in passing -/

/-- Each answer was given on some volume with these ways. -/
def Glimpses (v : Volume) (trace : Trace Call Answer) : Prop :=
  ∀ e ∈ trace, ∃ u fault, SameWays v u ∧ e.2 = (respond fault e.1 u).1

section
variable {v : Volume} {service : Service} {id requestPath root path : JsString}
  {trace : Trace Call Answer}

theorem Glimpses.ok (h : Glimpses v trace) {c : Call} {a : c.Returns}
    (hmem : ⟨c, .ok a⟩ ∈ trace) : ∃ u, SameWays v u ∧ (perform c u).1 = .ok a := by
  obtain ⟨u, fault, hways, hanswer⟩ := h _ hmem
  cases fault with
  | none => exact ⟨u, hways, hanswer.symm⟩
  | some fault =>
      have herror : (respond (some fault) c u).1 = .error fault.errno := by cases c <;> rfl
      exact absurd (hanswer.trans herror) (by simp)

theorem glimpses_append {more : Trace Call Answer} :
    Glimpses v (trace ++ more) ↔ Glimpses v trace ∧ Glimpses v more :=
  List.forall_mem_append

/-- The target that was found is where the request aims at on the volume. -/
theorem aims_of_glimpses {verb : String} {found : JsString × JsString}
    (hrecord : service.resolveWorkspace id = .ok (some ⟨root, .available⟩))
    (hrealpath : Glimpses v [⟨.realpath root, .ok root⟩])
    (hpath : normalizeRelativePath requestPath false = .ok path)
    (h : Async.Returns (writeTarget root path verb) trace found) (hglimpses : Glimpses v trace) :
    ∃ rootPlace segs dir name, service.Aims v id requestPath rootPlace segs dir name ∧
      found = (dir.text, target dir [name]) := by
  obtain ⟨parent, stats, rfl, hinside, htype, rfl⟩ := returns_writeTarget h
  obtain ⟨segs, name, hsegments, rfl⟩ := normalizeRelativePath_last hpath
  have hsegs : ∀ s ∈ segs, Plain s := fun s hs => (hsegments s (List.mem_append_left _ hs)).toPlain
  have hname : Plain name := (hsegments name (by simp)).toPlain
  rw [dirname_portable hsegs hname, basename_portable hname] at *
  -- the root
  obtain ⟨u₁, hways₁, hroot⟩ := hrealpath.ok List.mem_cons_self
  obtain ⟨-, rootPlace, -, hlocate₁, -, rfl⟩ := perform_realpath.mp (Prod.ext hroot rfl)
  have hrootPlain : rootPlace.Plain := (Volume.lands_of_locate hlocate₁).plain
  -- the parent
  obtain ⟨u₂, hways₂, hparent⟩ := hglimpses.ok List.mem_cons_self
  obtain ⟨-, dir, -, hlocate₂, -, rfl⟩ := perform_realpath.mp (Prod.ext hparent rfl)
  have hcandidate : resolved rootPlace.text (portable segs) = target rootPlace segs :=
    candidate_eq hrootPlain hsegs
  rw [hcandidate] at hlocate₂
  have hreached := (Volume.lands_of_locate hlocate₂).toReached
  -- it is a directory
  obtain ⟨u₃, hways₃, hlstat⟩ := hglimpses.ok (List.mem_cons_of_mem _ List.mem_cons_self)
  obtain ⟨-, place, node, hlocate₃, hnode, rfl⟩ := perform_lstat.mp (Prod.ext hlstat rfl)
  have hreached₃ : u₃.Reached dir := reached_keeps (hways₂.symm.trans hways₃).keeps hreached
  obtain rfl : dir = place := by
    rw [Volume.locate_text ⟨hreached₃, fun _ _ => rfl⟩] at hlocate₃
    exact Except.ok.inj hlocate₃
  have hdirectory : u₃.node? dir = some .directory := by
    cases node with
    | directory => exact hnode
    | file bytes mode => cases htype
    | symlink link => cases htype
    | other => cases htype
  have hstands : v.Stands dir := hways₃.symm.stands ⟨hreached₃, hdirectory⟩
  have hprefix : rootPlace <+: dir :=
    (isSameOrDescendant_text hrootPlain hreached.plain).mp hinside
  have hlocated : v.locate true (target rootPlace segs) = .ok dir :=
    locate_directory hways₂.symm.keeps hlocate₂ (hways₂.keeps.directory dir hstands.node)
  have hrootStands := hstands.of_prefix hprefix
  refine ⟨rootPlace, segs, dir, name, ⟨⟨hrecord, hrootStands.lands true, ?_⟩, hpath, hsegments,
    ⟨hlocated, ?_, hprefix⟩, hstands⟩, ?_⟩
  · rw [hrootStands.node]
    rfl
  · rw [hstands.node]
    rfl
  · exact congrArg _ (join_text hstands.plain hname)

end

/-! ## Found again -/

/-- A mutation works at an entry of a directory, and it finds the same on every
volume with the same ways. -/
structure Prepares (service : Service) (v : Volume) (m : Mutation) (prepared : Prepared)
    (dir : Path) (name : JsString) : Prop where
  aims : ∃ root segs, service.Aims v m.workspaceId m.path root segs dir name
  target : prepared.target = Filesystem.target dir [name]
  parent : prepared.parent = dir.text
  settles : ∀ v', SameWays v v' → Settles (m.prepare service) v' prepared v'

section
variable {v : Volume} {service : Service} {trace : Trace Call Answer}

theorem settles_writeTarget {id requestPath : JsString} {root : Path} {segs : List JsString}
    {dir : Path} {name : JsString} {verb : String}
    (h : service.Aims v id requestPath root segs dir name) :
    Settles (writeTarget root.text (portable (segs ++ [name])) verb) v
      (dir.text, target dir [name]) v := by
  have htotal : Total (writeTarget root.text (portable (segs ++ [name])) verb)
      (fun found v' => found = (dir.text, target dir [name]) ∧ v' = v) v :=
    (total_writeTarget h.available h.path).mpr ⟨segs, dir, name, h, rfl, rfl, rfl⟩
  obtain ⟨found, v', hsettles, rfl, rfl⟩ := total_iff.mp htotal
  exact hsettles

theorem prepares_write {request : WriteRequest} {options : WriteOptions}
    (h : Async.Returns (service.prepareWrite request) trace options) (hglimpses : Glimpses v trace) :
    ∃ dir name, Prepares service v (.write request) (.write options) dir name := by
  unfold Service.prepareWrite at h
  obtain ⟨_, _, _, rfl, hlength, h₁⟩ := Async.returns_bind.mp h
  obtain ⟨_, _, expected, rfl, hexpected, h₂⟩ := Async.returns_bind.mp h₁
  obtain ⟨_, _, root, rfl, hroot, h₃⟩ := Async.returns_bind.mp h₂
  obtain ⟨_, _, path, rfl, hpath, h₄⟩ := Async.returns_bind.mp h₃
  obtain ⟨_, _, found, rfl, htarget, h₅⟩ := Async.returns_bind.mp h₄
  obtain ⟨rfl, hcontent⟩ := returns_failWhen.mp hlength
  obtain ⟨rfl, hnormal⟩ := returns_ofExcept.mp hexpected
  obtain ⟨hrecord, rfl⟩ := returns_accessWorkspace hroot
  obtain ⟨rfl, hrelative⟩ := returns_ofExcept.mp hpath
  simp only [List.nil_append] at hglimpses
  obtain ⟨hrealpath, hfound⟩ := glimpses_append.mp hglimpses
  obtain ⟨rootPlace, segs, dir, name, haims, rfl⟩ :=
    aims_of_glimpses hrecord hrealpath hrelative htarget (glimpses_append.mp hfound).1
  obtain ⟨-, rfl⟩ := Async.returns_pure.mp h₅
  obtain rfl := Except.ok.inj (hrelative.symm.trans haims.path)
  refine ⟨dir, name, ⟨rootPlace, segs, haims⟩, rfl, rfl, fun v' hways => settles_map ?_⟩
  have haims' := haims.keeps hways
  unfold Service.prepareWrite
  refine settles_bind (settles_failWhen hcontent) ?_
  refine settles_bind (settles_ofExcept hnormal) ?_
  refine settles_bind (settles_accessWorkspace haims'.available) ?_
  refine settles_bind (settles_ofExcept hrelative) ?_
  exact settles_bind (settles_writeTarget haims') settles_pure

theorem prepares_patch {request : PatchRequest} {options : PatchOptions}
    (h : Async.Returns (service.preparePatch request) trace options) (hglimpses : Glimpses v trace) :
    ∃ dir name, Prepares service v (.patch request) (.patch options) dir name := by
  unfold Service.preparePatch at h
  obtain ⟨_, _, expected, rfl, hexpected, h₁⟩ := Async.returns_bind.mp h
  obtain ⟨_, _, edits, rfl, hedits, h₂⟩ := Async.returns_bind.mp h₁
  obtain ⟨_, _, root, rfl, hroot, h₃⟩ := Async.returns_bind.mp h₂
  obtain ⟨_, _, path, rfl, hpath, h₄⟩ := Async.returns_bind.mp h₃
  obtain ⟨_, _, found, rfl, htarget, h₅⟩ := Async.returns_bind.mp h₄
  obtain ⟨rfl, hnormal⟩ := returns_ofExcept.mp hexpected
  obtain ⟨rfl, haccepted⟩ := returns_ofExcept.mp hedits
  obtain ⟨hrecord, rfl⟩ := returns_accessWorkspace hroot
  obtain ⟨rfl, hrelative⟩ := returns_ofExcept.mp hpath
  simp only [List.nil_append] at hglimpses
  obtain ⟨hrealpath, hfound⟩ := glimpses_append.mp hglimpses
  obtain ⟨rootPlace, segs, dir, name, haims, rfl⟩ :=
    aims_of_glimpses hrecord hrealpath hrelative htarget (glimpses_append.mp hfound).1
  obtain ⟨-, rfl⟩ := Async.returns_pure.mp h₅
  obtain rfl := Except.ok.inj (hrelative.symm.trans haims.path)
  refine ⟨dir, name, ⟨rootPlace, segs, haims⟩, rfl, rfl, fun v' hways => settles_map ?_⟩
  have haims' := haims.keeps hways
  unfold Service.preparePatch
  refine settles_bind (settles_ofExcept hnormal) ?_
  refine settles_bind (settles_ofExcept haccepted) ?_
  refine settles_bind (settles_accessWorkspace haims'.available) ?_
  refine settles_bind (settles_ofExcept hrelative) ?_
  exact settles_bind (settles_writeTarget haims') settles_pure

/-- A mutation that has found its target finds it again on every volume with
the same ways. -/
theorem prepares_of_returns {m : Mutation} {prepared : Prepared}
    (h : Async.Returns (m.prepare service) trace prepared) (hglimpses : Glimpses v trace) :
    ∃ dir name, Prepares service v m prepared dir name := by
  cases m with
  | write request =>
      obtain ⟨options, hoptions, rfl⟩ := Async.returns_map.mp h
      exact prepares_write hoptions hglimpses
  | patch request =>
      obtain ⟨options, hoptions, rfl⟩ := Async.returns_map.mp h
      exact prepares_patch hoptions hglimpses

end

end Benchhand.Filesystem
