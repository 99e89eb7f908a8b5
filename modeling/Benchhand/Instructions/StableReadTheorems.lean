/-
Benchhand.Instructions.StableReadTheorems — what is read while files change.

`#readInstructionFile` looks at the metadata of a file, reads it and looks
again. A fingerprint that is there twice has been there all the time
(`Timeline.Marked`), so the bytes in between are those of one version, and at
the second look the candidate still led to it. The cache has only content of
bytes with the digest that the entry has (`GoodCache`), whichever call has
written the entry. So the content of an instruction file is that of a version
which it had meanwhile (`gives_readInstructionFile`).
-/
import Benchhand.Instructions.History
import Benchhand.Instructions.OrderTheorems

namespace Benchhand.Instructions

open Text Posix Process Store

/-! ## Files and their versions -/

section
variable {host : Host} {path : JsString}

theorem Host.version_eq_some {version : Version} : host.version path = some version ↔
    ∃ place bytes mode, host.vol.locate true path = .ok place ∧
      host.vol.node? place = some (.file bytes mode) ∧
      version = ⟨host.fileStats place (.file bytes mode), bytes⟩ := by
  unfold Host.version
  constructor
  · intro h
    split at h
    · rename_i place bytes mode hlookup
      obtain ⟨hlocate, hnode⟩ := Volume.lookup_ok.mp hlookup
      exact ⟨place, bytes, mode, hlocate, hnode, (Option.some.inj h).symm⟩
    · cases h
  · rintro ⟨place, bytes, mode, hlocate, hnode, rfl⟩
    rw [Volume.lookup_ok.mpr ⟨hlocate, hnode⟩]

theorem Host.realPath_eq_some {p : JsString} : host.realPath path = some p ↔
    ∃ place node, host.vol.locate true path = .ok place ∧ host.vol.node? place = some node ∧
      place.text = p := by
  unfold Host.realPath
  constructor
  · intro h
    cases hlookup : host.vol.lookup true "realpath" path with
    | error e =>
        rw [hlookup] at h
        cases h
    | ok found =>
        rw [hlookup] at h
        obtain ⟨hlocate, hnode⟩ := Volume.lookup_ok.mp hlookup
        exact ⟨found.1, found.2, hlocate, hnode, Option.some.inj h⟩
  · rintro ⟨place, node, hlocate, hnode, rfl⟩
    rw [Volume.lookup_ok.mpr ⟨hlocate, hnode⟩]
    rfl

/-- What `stat` says of a regular file belongs to a version. -/
theorem Host.version_of_stats {place : Path} {node : Node}
    (hlocate : host.vol.locate true path = .ok place) (hnode : host.vol.node? place = some node)
    (htype : (host.fileStats place node).type = .file) :
    ∃ version, host.version path = some version ∧ version.stats = host.fileStats place node := by
  cases node with
  | file bytes mode => exact ⟨_, Host.version_eq_some.mpr ⟨place, bytes, mode, hlocate, hnode, rfl⟩, rfl⟩
  | directory => cases htype
  | symlink target => cases htype
  | other => cases htype

end

/-! ## A file that is read without a cache -/

section
variable {host : Host} {cache : FileCache} {root candidate realPath filename : JsString}
  {version : Version}

theorem Host.permit_permissive {α : Type} (c : Call) (r : Except Errno α) :
    host.permissive.permit c r = r := Host.permit_none rfl r

/-- The metadata of a version. -/
def Version.metadata (version : Version) (realPath : JsString) : FileMetadata :=
  ⟨realPath, version.fingerprint, version.bytes.length⟩

theorem value_instructionFileMetadata (h : host.Shows root candidate realPath version)
    (hsize : version.bytes.length ≤ maxInstructionBytes) :
    value host.permissive (instructionFileMetadata root candidate filename) cache =
      (.ok (version.metadata realPath), cache) := by
  obtain ⟨place, node, hlocate, hnode, hreal⟩ := Host.realPath_eq_some.mp h.real
  obtain ⟨entry, node', hentry, hnode'⟩ := Volume.locate_entry hlocate hnode
  have hlstat : perform (.lstat candidate) host.permissive.vol = (.ok node'.stats, host.vol) :=
    perform_lstat.mpr ⟨rfl, entry, node', hentry, hnode', rfl⟩
  have hrealpath : perform (.realpath candidate) host.permissive.vol = (.ok realPath, host.vol) :=
    perform_realpath.mpr ⟨rfl, place, node, hlocate, hnode, hreal⟩
  obtain ⟨place', bytes, mode, hlocate', hfile, rfl⟩ := Host.version_eq_some.mp h.version
  have hstat : value host.permissive (stat realPath) cache =
      (.ok (host.fileStats place' (.file bytes mode)), cache) := by
    change (Except.mapError Thrown.errno (host.permissive.permit (.stat realPath)
      ((host.vol.lookup true "stat" realPath).map fun found =>
        host.fileStats found.1 found.2)), cache) = _
    rw [Host.permit_permissive, Volume.lookup_ok.mpr ⟨hlocate', hfile⟩]
    rfl
  unfold instructionFileMetadata
  refine (value_bind_ok (value_os_ok rfl hlstat)).trans ?_
  refine (value_bind_ok (value_os_ok rfl hrealpath)).trans ?_
  rw [failWhen, h.inside]
  refine (value_bind_ok (value_pure _)).trans ?_
  refine (value_bind_ok hstat).trans ?_
  refine (value_bind_ok (value_pure _)).trans ?_
  have hsafe : ¬ (Filesystem.maxSafeInteger : Int) <
      (host.fileStats place' (.file bytes mode)).size := by
    have hsize' : bytes.length ≤ maxInstructionBytes := hsize
    have hmax : maxInstructionBytes ≤ Filesystem.maxSafeInteger := by decide
    change ¬ (Filesystem.maxSafeInteger : Int) < (bytes.length : Int)
    omega
  rw [failWhen, decide_eq_false hsafe]
  rfl

theorem Host.bytes_of_lookup {path : JsString} {place : Path} {bytes : Bytes} {mode : BitVec 12}
    (h : host.vol.lookup true "open" path = .ok (place, .file bytes mode)) :
    host.bytes path = .ok bytes := by
  unfold Host.bytes
  rw [h]

theorem value_readFile (h : host.version realPath = some version) :
    value host.permissive (readFile realPath) cache = (.ok version.bytes, cache) := by
  obtain ⟨place, bytes, mode, hlocate, hnode, rfl⟩ := Host.version_eq_some.mp h
  have hopen : value host.permissive
      (.request (.openFile realPath) fun r => Except.mapError Thrown.errno r) cache =
        (.ok ⟨realPath, 0⟩, cache) := by
    change (Except.mapError Thrown.errno (host.permissive.permit (.openFile realPath)
      ((host.vol.lookup true "open" realPath).map fun _ => _)), cache) = _
    rw [Host.permit_permissive, Volume.lookup_ok.mpr ⟨hlocate, hnode⟩]
    rfl
  unfold readFile
  refine (value_bind_ok hopen).trans ?_
  change (Except.mapError Thrown.errno (host.permissive.permit (.readAll ⟨realPath, 0⟩)
    (host.permissive.bytes realPath)), cache) = _
  have hbytes : host.permissive.bytes realPath = .ok bytes :=
    Host.bytes_of_lookup (Volume.lookup_ok.mpr ⟨hlocate, hnode⟩)
  rw [Host.permit_permissive, hbytes]
  rfl

theorem value_mapError_ok {α : Type} {p : Async α} {a : α} {g : Thrown → Thrown}
    {cache' : FileCache} (h : value host p cache = (.ok a, cache')) :
    value host (Async.mapError g p) cache = (.ok a, cache') := by
  rw [Async.mapError, value_tryCatch, h]

theorem value_readStable {sha256 : Bytes → JsString} {context : ProviderContext}
    {content : JsString} {attempts : Nat}
    (h : host.Shows context.workspaceRoot candidate realPath version)
    (hsize : version.bytes.length ≤ maxInstructionBytes)
    (hdecode : decodeInstructionText version.bytes filename = .ok content) :
    (value host.permissive (readStable sha256 context filename candidate none (attempts + 1)
      (version.metadata realPath)) cache).1 =
        .ok ⟨realPath, version.fingerprint, content, sha256 version.bytes⟩ := by
  have hbound : ¬ (maxInstructionBytes : Int) < (version.metadata realPath).size := by
    change ¬ (maxInstructionBytes : Int) < (version.bytes.length : Int)
    omega
  have hread : value host.permissive (Async.mapError (mapReadError filename)
      (readFile (version.metadata realPath).realPath)) cache = (.ok version.bytes, cache) :=
    value_mapError_ok (value_readFile h.version)
  have hagain : value host.permissive (Async.mapError (mapReadError filename)
      (instructionFileMetadata context.workspaceRoot candidate filename)) cache =
        (.ok (version.metadata realPath), cache) :=
    value_mapError_ok (value_instructionFileMetadata h hsize)
  have hcontent : cachedContent sha256 none version.bytes filename = .ok content := hdecode
  rw [readStable, failWhen, decide_eq_false hbound]
  refine (congrArg Prod.fst (value_bind_ok (value_pure _))).trans ?_
  refine (congrArg Prod.fst (value_bind_ok hread)).trans ?_
  rw [failWhen, decide_eq_false (Nat.not_lt_of_le hsize)]
  refine (congrArg Prod.fst (value_bind_ok (value_pure _))).trans ?_
  refine (congrArg Prod.fst (value_bind_ok hagain)).trans ?_
  rw [if_pos ⟨rfl, rfl, rfl⟩, hcontent]
  rfl

/-- Without a cache, a file that stays as it is is read at the first attempt. -/
theorem fresh_eq {sha256 : Bytes → JsString} {context : ProviderContext} {content : JsString}
    (h : host.Shows context.workspaceRoot (join context.absoluteScopePath filename) realPath version)
    (hsize : version.bytes.length ≤ maxInstructionBytes)
    (hdecode : decodeInstructionText version.bytes filename = .ok content) :
    host.fresh sha256 context filename =
      .ok (some ⟨realPath, version.fingerprint, content, sha256 version.bytes⟩) := by
  have hfirst : value host.permissive
      (firstMetadata context filename (join context.absoluteScopePath filename)) .empty =
        (.ok (some (version.metadata realPath)), .empty) := by
    rw [firstMetadata, value_tryCatch, value_map, value_instructionFileMetadata h hsize]
    rfl
  have hcached : value host.permissive (getCached (join context.absoluteScopePath filename)) .empty =
      (.ok none, .empty) := rfl
  unfold Host.fresh readInstructionFile
  dsimp only
  rw [value_bind_ok hfirst]
  dsimp only
  rw [value_bind_ok hcached, value_map]
  exact congrArg (Except.map some) (value_readStable h hsize hdecode)

end

/-! ## The cache -/

section
variable (sha256 : Bytes → JsString)

/-- The content of a cached file belongs to its digest. -/
def GoodEntry (entry : CachedInstructionFile) : Prop :=
  ∃ bytes, entry.sha256 = sha256 bytes ∧ (0 : UInt8) ∉ bytes ∧
    decodeUtf8Fatal bytes = some entry.content

def GoodCache (cache : FileCache) : Prop :=
  ∀ candidate entry, cache.find? candidate = some entry → GoodEntry sha256 entry

/-- A call that puts nothing else into the cache. -/
def Call.Keeps : Call → Prop
  | .setCached _ entry => GoodEntry sha256 entry
  | _ => True

variable {sha256}

theorem respond_cache {turn : Turn} {timeline : Timeline Host} {c : Call} {cache : FileCache}
    (hc : c.Keeps sha256) (h : GoodCache sha256 cache) :
    GoodCache sha256 (respond turn timeline c cache).2 := by
  cases c with
  | setCached candidate entry =>
      intro k e hfind
      change (cache.put candidate entry).find? k = some e at hfind
      rw [Table.find?_put] at hfind
      split at hfind
      · exact Option.some.inj hfind ▸ hc
      · exact h k e hfind
  | deleteCached candidate =>
      intro k e hfind
      change (cache.erase candidate).find? k = some e at hfind
      rw [Table.find?_erase] at hfind
      split at hfind
      · cases hfind
      · exact h k e hfind
  | _ => exact h

/-- What holds of the cached content of a buffer, if digests do not collide. -/
theorem cachedContent_ok (hsha : Function.Injective sha256)
    {cached : Option CachedInstructionFile} (hgood : ∀ entry, cached = some entry →
      GoodEntry sha256 entry) {buffer : Bytes} {filename content : JsString}
    (h : cachedContent sha256 cached buffer filename = .ok content) :
    (0 : UInt8) ∉ buffer ∧ decodeUtf8Fatal buffer = some content := by
  cases cached with
  | none => exact decodeInstructionText_ok_iff.mp h
  | some entry =>
      rw [cachedContent] at h
      split at h
      · rename_i hdigest
        obtain ⟨bytes, hbytes, hnul, hdecode⟩ := hgood entry rfl
        obtain rfl : bytes = buffer := hsha (hbytes.symm.trans hdigest)
        exact ⟨hnul, hdecode.trans (congrArg some (Except.ok.inj h))⟩
      · exact decodeInstructionText_ok_iff.mp h

end

/-! ## Functions in a history -/

section
variable (sha256 : Bytes → JsString)

/-- The resolves rely on each other and on the outside for this: fingerprints
are never used twice, and the cache is good. -/
def historyRules : Rules Call Call.Answer World Turn where
  handler := happen
  inv w := Timeline.Marked Host.version Version.fingerprint w.timeline ∧ GoodCache sha256 w.cache
  rely v w := v.timeline.Before w.timeline
  guar _ _ v w := v.timeline.Before w.timeline
  refl w := .refl w.timeline
  trans h h' := h.trans h'

/-- Run from here in any history, the function resolves only with what meets
`P`; it may always reject. -/
structure Gives {α : Type} (p : Async α) (P : α → Timeline Host → Prop) (w : World) : Prop where
  safe : ∀ seen, Async.Safe (historyRules sha256) (fun _ _ => Possible) p
    (fun _ a w => P a w.timeline) (fun _ _ _ => True) seen w

variable {sha256}
variable {α β : Type} {p : Async α} {P P' : α → Timeline Host → Prop} {w : World}

/-- What happens later does not change it. -/
def Lasting (P : α → Timeline Host → Prop) : Prop := ∀ a t t', t.Before t' → P a t → P a t'

theorem gives_pure {a : α} (h : ∀ t, w.timeline.Before t → P a t) : Gives sha256 (pure a) P w :=
  ⟨fun _ => Async.safe_pure fun v hv _ => h v.timeline hv⟩

theorem gives_throw (e : Thrown) : Gives sha256 (throw e : Async α) P w :=
  ⟨fun _ => Async.safe_throw fun _ _ _ => trivial⟩

theorem Gives.mono (h : Gives sha256 p P w) (hP : ∀ a t, P a t → P' a t) : Gives sha256 p P' w :=
  ⟨fun seen => (h.safe seen).mono (fun _ a w _ => hP a w.timeline) fun _ _ _ _ _ => trivial⟩

/-- What comes behind a function has the fingerprints of the whole history. -/
theorem gives_bind {f : α → Async β} {Q : β → Timeline Host → Prop} (h : Gives sha256 p P w)
    (hf : ∀ a w', w.timeline.Before w'.timeline →
      Timeline.Marked Host.version Version.fingerprint w'.timeline → GoodCache sha256 w'.cache →
        P a w'.timeline → Gives sha256 (f a) Q w') : Gives sha256 (p >>= f) Q w := by
  refine ⟨fun seen => ?_⟩
  have hframed := (h.safe seen).frame (F := fun _ v => w.timeline.Before v.timeline)
    (Timeline.Before.refl _)
    (fun _ v v' (hrely : v.timeline.Before v'.timeline) hF => Timeline.Before.trans hF hrely)
    fun _ _ _ v v' (hguar : v.timeline.Before v'.timeline) hF => Timeline.Before.trans hF hguar
  refine hframed.bind (fun seen' a w' hinv hpost => ?_) fun _ _ _ _ _ _ _ _ => trivial
  exact (hf a w' hpost.2 hinv.1 hinv.2 hpost.1).safe seen'

theorem gives_map {g : α → β} {Q : β → Timeline Host → Prop}
    (h : Gives sha256 p (fun a => Q (g a)) w) (hQ : Lasting Q) : Gives sha256 (g <$> p) Q w :=
  ⟨fun seen => (h.safe seen).map
    (fun _ a w _ hpost v hv _ => hQ (g a) w.timeline v.timeline hv hpost)
    fun _ _ _ _ _ _ _ _ => trivial⟩

theorem gives_mapError {g : Thrown → Thrown} (h : Gives sha256 p P w) (hP : Lasting P) :
    Gives sha256 (Async.mapError g p) P w :=
  ⟨fun seen => (h.safe seen).mapError
    (fun _ a w _ hpost v hv _ => hP a w.timeline v.timeline hv hpost)
    fun _ _ _ _ _ _ _ _ => trivial⟩

/-- A handler that is good from everywhere. -/
theorem gives_tryCatch {handle : Thrown → Async α} (h : Gives sha256 p P w) (hP : Lasting P)
    (hhandle : ∀ e w', Gives sha256 (handle e) P w') : Gives sha256 (tryCatch p handle) P w :=
  ⟨fun seen => (h.safe seen).tryCatch
    (fun _ a w _ hpost v hv _ => hP a w.timeline v.timeline hv hpost)
    fun seen' e w' _ _ => (hhandle e w').safe seen'⟩

theorem gives_ofExcept {r : Except Thrown α} (h : ∀ a t, w.timeline.Before t → r = .ok a → P a t) :
    Gives sha256 (ofExcept r) P w := by
  cases r with
  | ok a => exact gives_pure fun t ht => h a t ht rfl
  | error e => exact gives_throw e

theorem gives_fail {code : ErrorCode} {path : Option JsString} {message : JsString} :
    Gives sha256 (fail code path message) P w := gives_throw _

theorem gives_failWhen {condition : Bool} {code : ErrorCode} {path : Option JsString}
    {message : JsString} :
    Gives sha256 (failWhen condition code path message) (fun _ _ => condition = false) w := by
  unfold failWhen
  split
  · exact gives_fail
  · rename_i hcondition
    exact gives_pure fun _ _ => Bool.eq_false_iff.mpr hcondition

/-- One call. -/
theorem gives_request {c : Call} {answer : c.Answer → Except Thrown α}
    (hc : c.Keeps sha256)
    (h : ∀ turn t cache a, w.timeline.Before t → GoodCache sha256 cache →
      answer (respond turn t c cache).1 = .ok a → ∀ t', t.Before t' → P a t') :
    Gives sha256 (.request c answer) P w := by
  refine ⟨fun seen => Async.safe_request fun v hv hinv turn hpossible => ?_⟩
  have hbefore := Timeline.before_advance v.timeline turn.modifications
  refine ⟨⟨hinv.1.advance hpossible, respond_cache hc hinv.2⟩, hbefore, fun u hu _ => ?_⟩
  split
  · rename_i a ha
    exact h turn _ v.cache a (hv.trans hbefore) hinv.2 ha _ hu
  · trivial

/-- A function that leaves the cache alone. -/
theorem gives_of_uses (h : Async.Uses Call.Outside p) : Gives sha256 p (fun _ _ => True) w := by
  refine ⟨fun seen => ?_⟩
  refine Async.safe_of_uses (F := fun _ _ => True) (fun _ _ _ _ h => h) ?_ h trivial
  intro seen c v turn hc hinv hpossible _
  have hkeeps : c.Keeps sha256 := by
    cases c with
    | setCached candidate entry => exact hc.elim
    | _ => trivial
  exact ⟨⟨hinv.1.advance hpossible, respond_cache hkeeps hinv.2⟩,
    Timeline.before_advance v.timeline turn.modifications, trivial⟩

/-! ## Calls in a history -/

/-- What was at a moment stays. -/
theorem Since.later {t t' : Timeline Host} {began : Nat} {Q : Host → Prop} (h : t.Before t')
    (hsince : Since t began Q) : Since t' began Q := by
  obtain ⟨n, host, hn, hhost, hQ⟩ := hsince
  exact ⟨n, host, hn, h.at? hhost, hQ⟩

theorem Host.permit_ok {host : Host} {c : Call} {r : Except Errno α} {a : α}
    (h : host.permit c r = .ok a) : r = .ok a := by
  unfold Host.permit at h
  split at h
  · cases h
  · exact h

theorem mapError_ok {r : Except Errno α} {a : α} (h : r.mapError Thrown.errno = .ok a) :
    r = .ok a := by
  cases r with
  | error e => cases h
  | ok b => exact congrArg Except.ok (Except.ok.inj h)

/-- A call that looks a path up at one moment. -/
theorem gives_lookup {c : Call} {answer : c.Answer → Except Thrown α} (hc : c.Keeps sha256)
    {Q : α → Host → Prop}
    (h : ∀ turn (t : Timeline Host) cache a, answer (respond turn t c cache).1 = .ok a → Q a t.now) :
    Gives sha256 (.request c answer)
      (fun a t => ∃ n host, w.timeline.present ≤ n ∧ t.at? n = some host ∧ Q a host) w :=
  gives_request hc fun turn t cache a hbefore _ ha _ ht =>
    ⟨t.present, t.now, hbefore.present, ht.at? Timeline.at?_present, h turn t cache a ha⟩

theorem gives_realpath (path : JsString) : Gives sha256 (realpath path)
    (fun a t => ∃ n host, w.timeline.present ≤ n ∧ t.at? n = some host ∧
      host.realPath path = some a) w := by
  have hc : Call.Keeps sha256 (.os (.realpath path)) := trivial
  refine gives_lookup hc fun turn t cache a h => ?_
  obtain ⟨place, node, hlocate, hnode, rfl⟩ :=
    (Volume.lookup_map "realpath" _).mp (Host.permit_ok (mapError_ok h))
  exact Host.realPath_eq_some.mpr ⟨place, node, hlocate, hnode, rfl⟩

theorem gives_stat (path : JsString) : Gives sha256 (stat path)
    (fun a t => ∃ n host, w.timeline.present ≤ n ∧ t.at? n = some host ∧
      (a.type = .file → ∃ version, host.version path = some version ∧ version.stats = a)) w := by
  have hc : Call.Keeps sha256 (.stat path) := trivial
  refine gives_lookup hc fun turn t cache a h htype => ?_
  obtain ⟨place, node, hlocate, hnode, rfl⟩ :=
    (Volume.lookup_map "stat" _).mp (Host.permit_ok (mapError_ok h))
  exact Host.version_of_stats hlocate hnode htype

/-- A path has one version from a moment to another. -/
def Steady (t : Timeline Host) (path : JsString) (version : Version) (n m : Nat) : Prop :=
  ∀ k host, n ≤ k → k ≤ m → t.at? k = some host → host.version path = some version

theorem undisturbed_of_steady {t : Timeline Host} {reading : Reading} {version : Version}
    (hle : reading.moment ≤ t.present)
    (h : Steady t reading.path version reading.moment t.present) :
    undisturbed t reading = some version := by
  have hnow := h t.present t.now hle (Nat.le_refl _) Timeline.at?_present
  unfold undisturbed
  rw [hnow]
  refine if_pos (List.all_eq_true.mpr fun n hn => ?_)
  have hn' : n ≤ t.present := Nat.le_of_lt_succ (List.mem_range.mp hn)
  by_cases hlt : n < reading.moment
  · simp [hlt]
  · obtain ⟨host, hhost⟩ := Timeline.exists_at? hn'
    simp [hhost, h n host (Nat.le_of_not_lt hlt) hn' hhost]

/-- A read that nothing disturbs is answered with the bytes of the file. -/
theorem respond_readAll {turn : Turn} {t : Timeline Host} {reading : Reading} {version : Version}
    {cache : FileCache} (h : undisturbed t reading = some version) :
    (respond turn t (.readAll reading) cache).1 =
      t.now.permit (.readAll reading) (.ok version.bytes) := by
  simp only [respond, h]
  rfl

/-- The bytes of a read are those of the version that the path has had from the
beginning of the read to its end. -/
theorem gives_readFile (path : JsString) : Gives sha256 (readFile path)
    (fun bytes t => ∃ n m, w.timeline.present ≤ n ∧ n ≤ m ∧ m ≤ t.present ∧
      ∀ version, Steady t path version n m → bytes = version.bytes) w := by
  unfold readFile
  have hopen : Gives sha256 (.request (.openFile path) fun r => Except.mapError Thrown.errno r)
      (fun reading t => reading.path = path ∧ w.timeline.present ≤ reading.moment ∧
        reading.moment ≤ t.present) w := by
    refine gives_request trivial fun turn t cache a hbefore _ ha t' ht => ?_
    obtain ⟨place, node, -, -, rfl⟩ :=
      (Volume.lookup_map "open" _).mp (Host.permit_ok (mapError_ok ha))
    exact ⟨rfl, hbefore.present, ht.present⟩
  refine gives_bind hopen fun reading w' _ _ _ hreading => ?_
  obtain ⟨rfl, hbegan, hmoment⟩ := hreading
  refine gives_request trivial fun turn t cache bytes hbefore _ hbytes t' ht => ?_
  have hle : reading.moment ≤ t.present := hmoment.trans hbefore.present
  refine ⟨reading.moment, t.present, hbegan, hle, ht.present, fun version hsteady => ?_⟩
  have hundisturbed : undisturbed t reading = some version :=
    undisturbed_of_steady hle fun k host hk hk' hhost => hsteady k host hk hk' (ht.at? hhost)
  have hanswer : Except.mapError Thrown.errno (respond turn t (.readAll reading) cache).1 =
      .ok bytes := hbytes
  rw [respond_readAll hundisturbed] at hanswer
  exact (Except.ok.inj (Host.permit_ok (mapError_ok hanswer))).symm

/-! ## Metadata -/

/-- Metadata that were seen: at a moment the candidate led to the real path, and
at a later one there was a version with the fingerprint. -/
structure Observed (t : Timeline Host) (root candidate : JsString) (metadata : FileMetadata)
    (n m : Nat) : Prop where
  le : n ≤ m
  inside : isSameOrDescendant root metadata.realPath = true
  real : ∃ host, t.at? n = some host ∧ host.realPath candidate = some metadata.realPath
  seen : ∃ host version, t.at? m = some host ∧ host.version metadata.realPath = some version ∧
    version.fingerprint = metadata.fingerprint

theorem Observed.later {t t' : Timeline Host} {root candidate : JsString} {metadata : FileMetadata}
    {n m : Nat} (h : Observed t root candidate metadata n m) (ht : t.Before t') :
    Observed t' root candidate metadata n m where
  le := h.le
  inside := h.inside
  real := let ⟨host, hhost, hreal⟩ := h.real; ⟨host, ht.at? hhost, hreal⟩
  seen := let ⟨host, version, hhost, hseen⟩ := h.seen; ⟨host, version, ht.at? hhost, hseen⟩

theorem Observed.le_present {t : Timeline Host} {root candidate : JsString}
    {metadata : FileMetadata} {n m : Nat} (h : Observed t root candidate metadata n m) :
    m ≤ t.present := by
  obtain ⟨host, version, hhost, -⟩ := h.seen
  exact Timeline.le_present_of_at? hhost

theorem gives_instructionFileMetadata (root candidate portablePath : JsString) :
    Gives sha256 (instructionFileMetadata root candidate portablePath)
      (fun metadata t => ∃ n m, w.timeline.present ≤ n ∧ Observed t root candidate metadata n m)
      w := by
  unfold instructionFileMetadata
  have hlstat : Gives sha256 (lstat candidate) (fun _ _ => True) w :=
    gives_request trivial fun _ _ _ _ _ _ _ _ _ => trivial
  refine gives_bind hlstat fun _ w₁ h₁ _ _ _ => ?_
  refine gives_bind (gives_realpath candidate) fun realPath w₂ h₂ _ _ hreal => ?_
  obtain ⟨n, host, hn, hhost, hreal⟩ := hreal
  refine gives_bind gives_failWhen fun _ w₃ h₃ _ _ hinside => ?_
  refine gives_bind (gives_stat realPath) fun stats w₄ h₄ _ _ hstats => ?_
  obtain ⟨m, host', hm, hhost', hstats⟩ := hstats
  refine gives_bind gives_failWhen fun _ w₅ h₅ _ _ htype => ?_
  refine gives_bind gives_failWhen fun _ w₆ h₆ _ _ _ => gives_pure fun t ht => ?_
  obtain ⟨version, hversion, hsame⟩ := hstats (by simpa using htype)
  have hle : n ≤ m :=
    (Timeline.le_present_of_at? hhost).trans (h₃.present.trans hm)
  refine ⟨n, m, h₁.present.trans hn, hle, by simpa using hinside, ?_, ?_⟩
  · exact ⟨host, (h₃.trans (h₄.trans (h₅.trans (h₆.trans ht)))).at? hhost, hreal⟩
  · refine ⟨host', version, (h₅.trans (h₆.trans ht)).at? hhost', hversion, ?_⟩
    exact congrArg FileStats.fingerprint hsame

/-- Metadata that were seen twice: the real path had one version in between,
and at the second look the candidate led to it. -/
theorem Observed.twice {t : Timeline Host} {root candidate : JsString}
    {metadata after : FileMetadata} {n m n' m' : Nat}
    (hmarked : Timeline.Marked Host.version Version.fingerprint t)
    (h : Observed t root candidate metadata n m) (h' : Observed t root candidate after n' m')
    (hle : m ≤ n') (hreal : after.realPath = metadata.realPath)
    (hfingerprint : after.fingerprint = metadata.fingerprint) :
    ∃ version, Steady t metadata.realPath version m m' ∧
      version.fingerprint = metadata.fingerprint ∧
      ∃ host, t.at? n' = some host ∧ host.Shows root candidate metadata.realPath version := by
  obtain ⟨first, version, hfirst, hversion, hseen⟩ := h.seen
  obtain ⟨second, version', hsecond, hversion', hseen'⟩ := h'.seen
  rw [hreal] at hversion'
  have hsteady : Steady t metadata.realPath version m m' :=
    hmarked metadata.realPath m m' first second version version' (hle.trans h'.le) hfirst hsecond
      hversion hversion' (hseen.trans (hseen'.trans hfingerprint).symm)
  obtain ⟨host, hhost, hcandidate⟩ := h'.real
  refine ⟨version, hsteady, hseen, host, hhost, ?_, h.inside, ?_⟩
  · exact hreal ▸ hcandidate
  · exact hsteady n' host hle h'.le hhost

/-! ## Instruction files -/

/-- A version that a candidate showed since the beginning has this content. -/
def Showed (began : Nat) (root candidate filename content : JsString) (t : Timeline Host) : Prop :=
  ∃ n host realPath version, began ≤ n ∧ t.at? n = some host ∧
    host.Shows root candidate realPath version ∧ version.bytes.length ≤ maxInstructionBytes ∧
      decodeInstructionText version.bytes filename = .ok content

theorem Showed.later {began : Nat} {root candidate filename content : JsString}
    {t t' : Timeline Host} (ht : t.Before t')
    (h : Showed began root candidate filename content t) :
    Showed began root candidate filename content t' := by
  obtain ⟨n, host, realPath, version, hn, hhost, hrest⟩ := h
  exact ⟨n, host, realPath, version, hn, ht.at? hhost, hrest⟩

theorem gives_readStable (hsha : Function.Injective sha256) {context : ProviderContext}
    {filename candidate : JsString} {cached : Option CachedInstructionFile}
    (hgood : ∀ entry, cached = some entry → GoodEntry sha256 entry) {began : Nat} :
    ∀ (attempts : Nat) {metadata : FileMetadata} {n m : Nat} {w : World}, began ≤ n →
      Observed w.timeline context.workspaceRoot candidate metadata n m →
      Gives sha256 (readStable sha256 context filename candidate cached attempts metadata)
        (fun entry => Showed began context.workspaceRoot candidate filename entry.content) w
  | 0, _, _, _, _, _, _ => gives_fail
  | attempts + 1, metadata, n, m, w, hn, hobserved => by
      rw [readStable]
      refine gives_bind gives_failWhen fun _ w₁ h₁ _ _ _ => ?_
      have hlasting : Lasting (fun (bytes : Bytes) t => ∃ n m, w₁.timeline.present ≤ n ∧ n ≤ m ∧
          m ≤ t.present ∧ ∀ version, Steady t metadata.realPath version n m →
            bytes = version.bytes) := by
        rintro bytes t t' ht ⟨i, j, hi, hij, hj, hbytes⟩
        refine ⟨i, j, hi, hij, hj.trans ht.present, fun version hsteady => hbytes version ?_⟩
        exact fun k host hk hk' hhost => hsteady k host hk hk' (ht.at? hhost)
      refine gives_bind (gives_mapError (gives_readFile metadata.realPath) hlasting)
        fun buffer w₂ h₂ _ _ hread => ?_
      obtain ⟨i, j, hi, hij, hj, hbytes⟩ := hread
      refine gives_bind gives_failWhen fun _ w₃ h₃ _ _ hsize => ?_
      refine gives_bind (gives_mapError (gives_instructionFileMetadata _ _ _) ?_)
        fun after w₄ h₄ hmarked _ hafter => ?_
      · rintro after t t' ht ⟨n', m', hn', hobserved'⟩
        exact ⟨n', m', hn', hobserved'.later ht⟩
      obtain ⟨n', m', hn', hobserved'⟩ := hafter
      have hmj : j ≤ n' := hj.trans (h₃.present.trans hn')
      have hmi : m ≤ i := hobserved.le_present.trans (h₁.present.trans hi)
      have hearlier := hobserved.later (h₁.trans (h₂.trans (h₃.trans h₄)))
      split
      · -- the two looks agree: the read is that of one version
        rename_i hstable
        obtain ⟨version, hsteady, hfingerprint, host, hhost, hshows⟩ :=
          hearlier.twice hmarked hobserved' (hmi.trans (hij.trans hmj)) hstable.1 hstable.2.1
        obtain rfl : buffer = version.bytes := hbytes version fun k host' hk hk' hhost' =>
          hsteady k host' (hmi.trans hk) (hk'.trans (hmj.trans hobserved'.le))
            ((h₃.trans h₄).at? hhost')
        refine gives_bind (gives_ofExcept (P := fun content _ => (0 : UInt8) ∉ version.bytes ∧
          decodeUtf8Fatal version.bytes = some content) fun content _ _ hcontent =>
            cachedContent_ok hsha hgood hcontent) fun content w₅ h₅ _ _ hdecoded => ?_
        have hentry : Call.Keeps sha256 (.setCached candidate
            ⟨metadata.realPath, metadata.fingerprint, content, sha256 version.bytes⟩) :=
          ⟨version.bytes, rfl, hdecoded⟩
        have hset : Gives sha256 (setCached candidate
            ⟨metadata.realPath, metadata.fingerprint, content, sha256 version.bytes⟩)
            (fun _ _ => True) w₅ :=
          gives_request hentry fun _ _ _ _ _ _ _ _ _ => trivial
        refine gives_bind hset fun _ w₆ h₆ _ _ _ => gives_pure fun t ht => ?_
        refine ⟨n', host, metadata.realPath, version, ?_, ?_, hshows, by simpa using hsize, ?_⟩
        · exact hn.trans (hobserved.le.trans (hmi.trans (hij.trans hmj)))
        · exact (h₅.trans (h₆.trans ht)).at? hhost
        · exact decodeInstructionText_ok_iff.mpr hdecoded
      · refine gives_readStable hsha hgood attempts ?_ hobserved'
        exact hn.trans (hobserved.le.trans (hmi.trans (hij.trans hmj)))

theorem gives_firstMetadata {context : ProviderContext} {filename candidate : JsString} :
    Gives sha256 (firstMetadata context filename candidate)
      (fun metadata t => ∀ found, metadata = some found → ∃ n m, w.timeline.present ≤ n ∧
        Observed t context.workspaceRoot candidate found n m) w := by
  have hlasting : Lasting (fun (metadata : Option FileMetadata) t => ∀ found,
      metadata = some found → ∃ n m, w.timeline.present ≤ n ∧
        Observed t context.workspaceRoot candidate found n m) := by
    intro metadata t t' ht h found hfound
    obtain ⟨n, m, hn, hobserved⟩ := h found hfound
    exact ⟨n, m, hn, hobserved.later ht⟩
  unfold firstMetadata
  refine gives_tryCatch (gives_map ?_ hlasting) hlasting fun e w' => ?_
  · refine (gives_instructionFileMetadata _ _ _).mono fun metadata t h found hfound => ?_
    exact Option.some.inj hfound ▸ h
  · split
    · have hdelete : Gives sha256 (deleteCached candidate) (fun _ _ => True) w' :=
        gives_request trivial fun _ _ _ _ _ _ _ _ _ => trivial
      exact gives_bind hdelete fun _ _ _ _ _ _ => gives_pure fun _ _ _ h => (by cases h)
    · exact gives_throw e

/-- The content of an instruction file is that of a version it had meanwhile. -/
theorem gives_readInstructionFile (hsha : Function.Injective sha256) (context : ProviderContext)
    (filename : JsString) : Gives sha256 (readInstructionFile sha256 context filename)
      (fun document t => ∀ entry, document = some entry →
        Showed w.timeline.present context.workspaceRoot (join context.absoluteScopePath filename)
          filename entry.content t) w := by
  unfold readInstructionFile
  refine gives_bind gives_firstMetadata fun metadata w₁ h₁ _ _ hmetadata => ?_
  cases metadata with
  | none => exact gives_pure fun _ _ _ h => (by cases h)
  | some metadata =>
      obtain ⟨n, m, hn, hobserved⟩ := hmetadata metadata rfl
      have hcached : Gives sha256 (getCached (join context.absoluteScopePath filename))
          (fun cached _ => ∀ entry, cached = some entry → GoodEntry sha256 entry) w₁ :=
        gives_request trivial fun _ _ cache _ _ hcache ha _ _ entry hentry =>
          hcache _ entry ((Except.ok.inj ha).trans hentry)
      refine gives_bind hcached fun cached w₂ h₂ _ _ hgood => ?_
      refine gives_map ((gives_readStable hsha hgood _ hn (hobserved.later h₂)).mono
        fun found t h entry hentry => ?_) ?_
      · exact Option.some.inj hentry ▸ h
      · exact fun document t t' ht h entry hentry => (h entry hentry).later ht

end

end Benchhand.Instructions
