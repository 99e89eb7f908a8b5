/-
Benchhand.Filesystem.FailureTheorems — failing calls and what is reported of them.

Most calls of an operation have a handler that makes a FilesystemError of their
exception or drops it. The others are bare, and so is the registry: an operation
ends with an exception of its own just when the registry has thrown one, a bare
call has failed, or a file was too long to be hashed (`failures_reported_iff`).
-/
import Benchhand.Filesystem.MutationTheorems

namespace Benchhand.Filesystem

open Text Posix Process

/-! ## Leaks -/

/-- The calls whose exception no handler of the operation meets. -/
def Operation.Bare : Operation → Call → Prop
  | _, .stat _ => True
  | _, .read _ _ _ => True
  | _, .readFile _ => True
  | _, .chmod _ _ => True
  | _, .writeFile _ _ => True
  | _, .sync _ => True
  | _, .close _ => True
  | .list _, .lstat _ => True
  | .search _, .readdir _ => True
  | _, _ => False

/-- The next position of a read that hashes is no safe integer. -/
def Overlong (e : Event) : Prop :=
  ∃ handle position bytes mode, e.call = .read handle position hashChunkBytes ∧ e.ok = true ∧
    handle.node = .file bytes mode ∧
    maxSafeInteger < position + ((bytes.drop position).take hashChunkBytes).length

/-- The operation hashes the file that it reads. -/
def Operation.hashes : Operation → Bool
  | .write _ _ => true
  | .patch _ _ => true
  | _ => false

/-- An event that makes the operation throw something else than a
FilesystemError. -/
def Operation.Leaks (op : Operation) (e : Event) : Prop :=
  (e.ok = false ∧ op.Bare e.call) ∨ (op.hashes = true ∧ Overlong e)

/-- Whatever the registry throws for the id is a FilesystemError. -/
def Service.Resolves (service : Service) (id : JsString) : Prop :=
  ∀ error, service.resolveWorkspace id = .error error → ∃ e, error = .filesystem e

/-- What an operation checks before it asks the registry. -/
def Operation.Admitted : Operation → Prop
  | .write _ request => (encodeUtf8 request.content).length ≤ maxWriteBytes ∧
      ∃ expected, normalizeExpectedSha256 request.expectedSha256 = .ok expected
  | .patch _ request =>
      (∃ expected, normalizeRequiredSha256 request.expectedSha256 "expectedSha256" = .ok expected) ∧
        ∃ edits, normalizePatchEdits request.edits = .ok edits
  | _ => True

/-- The registry is asked and throws something else than a FilesystemError. -/
def Operation.Unresolved (op : Operation) (service : Service) : Prop :=
  op.Admitted ∧ ¬ service.Resolves op.workspaceId

/-- A link or a rename was carried out. -/
def Puts (e : Event) : Prop :=
  e.ok = true ∧ ((∃ old new, e.call = .link old new) ∨ ∃ old new, e.call = .rename old new)

/-- There was a leak before anything was put in place. -/
def Leaked (leaks : Event → Prop) : List Event → Prop
  | [] => False
  | e :: log => Leaked leaks log ∨ (leaks e ∧ ∀ e' ∈ log, ¬ Puts e')

/-! ## Functions that report -/

/-- Nothing has leaked yet, and nothing was put in place. -/
structure Clear (leaks : Event → Prop) (log : List Event) : Prop where
  whole : ¬ Leaked leaks log
  unput : ∀ e ∈ log, ¬ Puts e

/-- The function throws a FilesystemError, or there was a leak. -/
def Blames (leaks : Event → Prop) (error : Thrown) (log : List Event) : Prop :=
  ((∃ e, error = .filesystem e) ∧ Clear leaks log) ∨
    ((∀ e, error ≠ .filesystem e) ∧ Leaked leaks log)

/-- What the function throws tells whether there was a leak. -/
def Reports (outside : Nat → Turn) (leaks : Event → Prop) {α : Type} (p : Async α) : Prop :=
  ∀ w : World, Clear leaks w.log →
    Async.Wp (answer outside) p (fun _ w' => Clear leaks w'.log)
      (fun error w' => Blames leaks error w'.log) w

section
variable {α β : Type} {outside : Nat → Turn} {leaks : Event → Prop} {log : List Event} {e : Event}

theorem Clear.cons (h : Clear leaks log) (hleaks : ¬ leaks e) (hputs : ¬ Puts e) :
    Clear leaks (e :: log) where
  whole hleaked := hleaked.elim h.whole fun hnew => hleaks hnew.1
  unput := List.forall_mem_cons.mpr ⟨hputs, h.unput⟩

theorem Clear.leak (h : Clear leaks log) (hleaks : leaks e) : Leaked leaks (e :: log) :=
  .inr ⟨hleaks, h.unput⟩

theorem Reports.pure (a : α) : Reports outside leaks (pure a : Async α) := fun _ h => h

theorem Reports.throw (e : FilesystemError) :
    Reports outside leaks (throw (.filesystem e) : Async α) := fun _ h => .inl ⟨⟨e, rfl⟩, h⟩

theorem Reports.bind {p : Async α} {f : α → Async β} (hp : Reports outside leaks p)
    (hf : ∀ a, Reports outside leaks (f a)) : Reports outside leaks (p >>= f) := fun w h =>
  Async.wp_bind.mpr ((hp w h).mono (fun a w' => hf a w') fun _ _ h' => h')

theorem Reports.map {p : Async α} {g : α → β} (hp : Reports outside leaks p) :
    Reports outside leaks (g <$> p) := fun w h =>
  Async.wp_map.mpr ((hp w h).mono (fun _ _ h' => h') fun _ _ h' => h')

theorem Reports.ofExcept (r : Except FilesystemError α) :
    Reports outside leaks (Filesystem.ofExcept r) := by
  cases r with
  | ok a => exact .pure a
  | error e => exact .throw e

theorem Reports.failWhen (condition : Bool) (code : ErrorCode) (path : Option JsString)
    (message : JsString) : Reports outside leaks (Filesystem.failWhen condition code path message) := by
  cases condition with
  | false => exact .pure _
  | true => exact .throw _

/-- The function does not leak, whatever it throws. -/
def Tight (outside : Nat → Turn) (leaks : Event → Prop) {α : Type} (p : Async α) : Prop :=
  ∀ w : World, Clear leaks w.log →
    Async.Wp (answer outside) p (fun _ w' => Clear leaks w'.log) (fun _ w' => Clear leaks w'.log) w

theorem not_puts_of_placing {c : Call} (hputs : Placing c) (hcall : e.call = c) : ¬ Puts e := by
  rintro ⟨-, ⟨old, new, heq⟩ | ⟨old, new, heq⟩⟩
  · exact hputs.1 old new (hcall.symm.trans heq)
  · exact hputs.2 old new (hcall.symm.trans heq)

theorem tight_call {c : Call} (hleaks : ∀ e, e.call = c → ¬ leaks e) (hputs : Placing c) :
    Tight outside leaks (call c) := by
  intro w h
  refine wp_call ?_ ?_
  · exact fun _ e _ hcall _ _ => h.cons (hleaks e hcall) (not_puts_of_placing hputs hcall)
  · exact fun _ e _ hcall _ _ => h.cons (hleaks e hcall) (not_puts_of_placing hputs hcall)

/-- A function whose exceptions go to a handler. -/
theorem Reports.handled {p : Async α} {handle : Thrown → Async α} (hp : Tight outside leaks p)
    (hhandle : ∀ error, Reports outside leaks (handle error)) :
    Reports outside leaks (tryCatch p handle) := fun w h =>
  Async.wp_tryCatch.mpr ((hp w h).mono (fun _ _ h' => h') fun error w' h' => hhandle error w' h')

theorem Tight.map {p : Async α} {g : α → β} (hp : Tight outside leaks p) :
    Tight outside leaks (g <$> p) := fun w h =>
  Async.wp_map.mpr ((hp w h).mono (fun _ _ h' => h') fun _ _ h' => h')

theorem Reports.mapError {p : Async α} {g : Thrown → Thrown} (hp : Tight outside leaks p)
    (hg : ∀ error, ∃ e, g error = .filesystem e) :
    Reports outside leaks (Async.mapError g p) := by
  refine .handled hp fun error => ?_
  obtain ⟨e, he⟩ := hg error
  rw [he]
  exact .throw e

/-- A call without a handler. -/
theorem Reports.bare {c : Call} (hleaks : ∀ e, e.call = c → (leaks e ↔ e.ok = false))
    (hputs : Placing c) : Reports outside leaks (call c) := by
  intro w h
  refine wp_call ?_ ?_
  · intro _ e _ hcall hok _
    exact h.cons (fun hleak => by simp [(hleaks e hcall).mp hleak] at hok)
      (not_puts_of_placing hputs hcall)
  · intro error e _ hcall hok _
    exact .inr ⟨fun _ => Thrown.noConfusion, h.leak ((hleaks e hcall).mpr hok)⟩

/-- A bare call in a `finally`, whose own exception wins. -/
theorem Reports.finally {p : Async α} {c : Call}
    (hleaks : ∀ e, e.call = c → (leaks e ↔ e.ok = false)) (hputs : Placing c)
    (hp : Reports outside leaks p) : Reports outside leaks (tryFinally p (call c)) := by
  intro w h
  refine Async.wp_tryFinally.mpr ((hp w h).mono (fun _ w' h' => ?_) fun error w' h' => ?_)
  · exact Reports.bare hleaks hputs w' h'
  · obtain ⟨hthrown, hclear⟩ | ⟨hthrown, hleaked⟩ := h'
    · exact (Reports.bare hleaks hputs w' hclear).mono (fun _ _ h₂ => .inl ⟨hthrown, h₂⟩)
        fun _ _ h₂ => h₂
    · refine wp_call ?_ ?_
      · exact fun _ _ _ _ _ _ => .inr ⟨hthrown, .inl hleaked⟩
      · exact fun _ _ _ _ _ _ => .inr ⟨fun _ => Thrown.noConfusion, .inl hleaked⟩

end

/-! ## Calls of the operations -/

theorem mapFilesystemError_filesystem (path : JsString) (error : Thrown) :
    ∃ e, mapFilesystemError path error = .filesystem e := by
  unfold mapFilesystemError
  split
  · exact ⟨_, rfl⟩
  · split <;> exact ⟨_, rfl⟩

theorem mapWriteFailure_filesystem (path : JsString) (error : Thrown) :
    ∃ e, mapWriteFailure path error = .filesystem e := by
  unfold mapWriteFailure
  split
  · exact ⟨_, rfl⟩
  · split <;> exact ⟨_, rfl⟩

theorem decodeUtf8_of_text {data : Bytes} (h : classifyBuffer data = .text) :
    ∃ text, decodeUtf8 data = pure text := by
  unfold classifyBuffer at h
  split at h
  · cases h
  · split at h
    · rename_i hsome
      obtain ⟨text, htext⟩ := Option.isSome_iff_exists.mp hsome
      exact ⟨text, by rw [decodeUtf8, htext]⟩
    · cases h

section
variable {outside : Nat → Turn} {op : Operation} {e : Event} {c : Call}

-- Else the elaborator runs the program to see whether its `Wp` is a function type.
attribute [local irreducible] Async.Wp

theorem leaks_iff (hcall : e.call = c) (hread : ∀ handle position length,
    c = .read handle position length → op.hashes = false) :
    op.Leaks e ↔ e.ok = false ∧ op.Bare c := by
  unfold Operation.Leaks
  rw [hcall]
  refine or_iff_left ?_
  rintro ⟨hhashes, handle, position, -, -, heq, -⟩
  rw [hread handle position _ (hcall.symm.trans heq)] at hhashes
  cases hhashes

theorem not_leaks (hbare : ¬ op.Bare c) (hread : ∀ handle position length,
    c = .read handle position length → op.hashes = false) (e : Event) (hcall : e.call = c) :
    ¬ op.Leaks e := fun h => hbare ((leaks_iff hcall hread).mp h).2

theorem leaks_bare (hbare : op.Bare c) (hread : ∀ handle position length,
    c = .read handle position length → op.hashes = false) (e : Event) (hcall : e.call = c) :
    op.Leaks e ↔ e.ok = false := (leaks_iff hcall hread).trans (and_iff_left hbare)

theorem tight_realpath (path : JsString) : Tight outside op.Leaks (realpath path) :=
  tight_call (not_leaks (by cases op <;> exact id) (by rintro _ _ _ ⟨⟩)) (placing_of_readOnly trivial)

theorem tight_openRead (path : JsString) : Tight outside op.Leaks (openRead path) :=
  tight_call (not_leaks (by cases op <;> exact id) (by rintro _ _ _ ⟨⟩)) (placing_of_readOnly trivial)

theorem reports_close {α : Type} {p : Async α} (handle : Handle)
    (hp : Reports outside op.Leaks p) :
    Reports outside op.Leaks (tryFinally p (Handle.close handle)) :=
  .finally (leaks_bare (by cases op <;> trivial) (by rintro _ _ _ ⟨⟩)) (placing_of_readOnly trivial) hp

theorem reports_stat (handle : Handle) : Reports outside op.Leaks (Handle.stat handle) :=
  .bare (leaks_bare (by cases op <;> trivial) (by rintro _ _ _ ⟨⟩)) (placing_of_readOnly trivial)

theorem reports_read (hop : op.hashes = false) (handle : Handle) (position length : Nat) :
    Reports outside op.Leaks (Handle.read handle position length) :=
  .bare (leaks_bare (by cases op <;> trivial) fun _ _ _ _ => hop) (placing_of_readOnly trivial)

theorem reports_accessWorkspace {service : Service} {id : JsString} (h : service.Resolves id) :
    Reports outside op.Leaks (service.accessWorkspace id) := by
  unfold Service.accessWorkspace
  split
  · rename_i error hthrown
    obtain ⟨e, rfl⟩ := h error hthrown
    exact .throw e
  · exact .throw _
  · refine .bind (.failWhen _ _ _ _) fun _ => .bind (.mapError (tight_realpath _) fun _ => ⟨_, rfl⟩)
      fun _ => .bind (.failWhen _ _ _ _) fun _ => .pure _

theorem reports_resolveExistingPath (root path : JsString) :
    Reports outside op.Leaks (resolveExistingPath root path) := by
  unfold resolveExistingPath
  exact .bind (.failWhen _ _ _ _) fun _ => .bind
    (.mapError (tight_realpath _) (mapFilesystemError_filesystem path)) fun _ => .bind
    (.failWhen _ _ _ _) fun _ => .pure _

end

/-! ## Reading, listing and searching -/

section
variable {outside : Nat → Turn} {service : Service}

attribute [local irreducible] Async.Wp

theorem reports_service_read {request : ReadRequest} (h : service.Resolves request.workspaceId) :
    Reports outside (Operation.read request).Leaks (service.read request) := by
  unfold Service.read
  refine .bind (reports_accessWorkspace h) fun root => .bind (.ofExcept _) fun path => ?_
  refine .bind (.ofExcept _) fun offset => .bind (.ofExcept _) fun maxBytes => ?_
  refine .bind (reports_resolveExistingPath _ _) fun absolutePath => ?_
  refine .bind (.mapError (tight_openRead _) (mapFilesystemError_filesystem _)) fun handle => ?_
  refine reports_close handle ?_
  unfold readRange
  refine .bind (reports_stat handle) fun stats => .bind (.failWhen _ _ _ _) fun _ => ?_
  refine .bind (.failWhen _ _ _ _) fun _ => .bind ?_ fun data => .bind ?_ fun _ => .pure _
  · split
    · exact .pure _
    · exact reports_read rfl _ _ _
  · split
    · rename_i htext
      obtain ⟨text, heq⟩ := decodeUtf8_of_text htext
      rw [heq]
      exact .map (.pure text)
    · exact .pure _

theorem reports_listEntries (request : ListRequest) (path absolutePath : JsString) :
    ∀ dirents : List Dirent,
      Reports outside (Operation.list request).Leaks (listEntries path absolutePath dirents)
  | [] => .pure _
  | dirent :: rest => by
      unfold listEntries readEntryMetadata
      refine .bind ?_ fun size => .bind (reports_listEntries request path absolutePath rest)
        fun _ => .pure _
      split
      · exact .pure _
      · refine .bind (.bare (leaks_bare trivial (by rintro _ _ _ ⟨⟩)) (placing_of_readOnly trivial))
          fun _ => .pure _

theorem reports_service_list {request : ListRequest} (h : service.Resolves request.workspaceId) :
    Reports outside (Operation.list request).Leaks (service.list request) := by
  unfold Service.list
  refine .bind (reports_accessWorkspace h) fun root => .bind (.ofExcept _) fun path => ?_
  refine .bind (.ofExcept _) fun limit => .bind (.ofExcept _) fun cursor => ?_
  refine .bind (reports_resolveExistingPath _ _) fun absolutePath => ?_
  refine .bind (.mapError (tight_call (not_leaks id (by rintro _ _ _ ⟨⟩))
    (placing_of_readOnly trivial)) (mapFilesystemError_filesystem _)) fun entries => ?_
  exact .bind (reports_listEntries request _ _ _) fun _ => .pure _

section
variable {request : SearchRequest}

theorem reports_searchOpenFile (options : SearchOptions) (query relativePath : JsString)
    (handle : Handle) (state : SearchState) :
    Reports outside (Operation.search request).Leaks
      (searchOpenFile options query relativePath handle state) := by
  unfold searchOpenFile
  refine .bind (reports_stat handle) fun stats => ?_
  split
  · exact .pure _
  split
  · exact .pure _
  refine .bind ?_ fun data => ?_
  · split
    · exact .pure _
    · exact reports_read rfl _ _ _
  · split
    · exact .pure _
    · rename_i hbinary
      have htext : classifyBuffer data = .text := by
        cases hclass : classifyBuffer data with
        | text => rfl
        | binary => exact absurd hclass hbinary
      obtain ⟨text, heq⟩ := decodeUtf8_of_text htext
      rw [heq]
      exact .bind (.pure text) fun _ => .pure _

/-- A way to an object that is not there is left out. -/
theorem reports_caught {α : Type} {p : Async α} (hp : Tight outside (Operation.search request).Leaks p) :
    Reports outside (Operation.search request).Leaks (tryCatch (some <$> p) fun _ => pure none) :=
  .handled (.map hp) fun _ => .pure _

theorem reports_searchFile (options : SearchOptions) (relativePath childPath : JsString)
    (state : SearchState) :
    Reports outside (Operation.search request).Leaks
      (searchFile options relativePath childPath state) := by
  unfold searchFile
  split
  · exact .pure _
  refine .bind (reports_caught (tight_realpath _)) fun canonicalFile => ?_
  split
  · exact .pure _
  split
  · exact .pure _
  refine .bind (reports_caught (tight_openRead _)) fun handle => ?_
  split
  · exact .pure _
  · exact reports_close _ (reports_searchOpenFile _ _ _ _ _)

/-- A descent that reports, if there is one. -/
def ReportsDown (outside : Nat → Turn) (request : SearchRequest) (descend : Option Descent) : Prop :=
  ∀ descent, descend = some descent → ∀ directory directoryPath state,
    Reports outside (Operation.search request).Leaks (descent directory directoryPath state)

theorem reports_searchDirectory {descend : Option Descent}
    (hdescend : ReportsDown outside request descend) (options : SearchOptions)
    (relativePath childPath : JsString) (state : SearchState) :
    Reports outside (Operation.search request).Leaks
      (searchDirectory options descend relativePath childPath state) := by
  unfold searchDirectory
  split
  · exact .pure _
  refine .bind (reports_caught (tight_realpath _)) fun canonicalDirectory => ?_
  split
  · exact .pure _
  split
  · exact .pure _
  · exact hdescend _ rfl _ _ _

theorem reports_searchEntries {descend : Option Descent}
    (hdescend : ReportsDown outside request descend) (options : SearchOptions)
    (directory directoryPath : JsString) : ∀ (entries : List Dirent) (state : SearchState),
      Reports outside (Operation.search request).Leaks
        (service.searchEntries options descend directory directoryPath entries state)
  | [], _ => .pure _
  | entry :: rest, state => by
      unfold Service.searchEntries
      dsimp only
      split
      · exact .pure _
      refine .bind ?_ fun state => reports_searchEntries hdescend options directory directoryPath
        rest state
      unfold Service.searchEntry
      dsimp only
      split
      · exact .pure _
      · exact reports_searchDirectory hdescend _ _ _ _
      · exact .pure _
      · split
        · exact .pure _
        · exact reports_searchFile _ _ _ _

theorem reports_searchIn {descend : Option Descent}
    (hdescend : ReportsDown outside request descend) (options : SearchOptions)
    (directory directoryPath : JsString) (state : SearchState) :
    Reports outside (Operation.search request).Leaks
      (service.searchIn options descend directory directoryPath state) := by
  unfold Service.searchIn
  split
  · exact .pure _
  · exact .bind (.bare (leaks_bare trivial (by rintro _ _ _ ⟨⟩)) (placing_of_readOnly trivial))
      fun _ => reports_searchEntries hdescend _ _ _ _ _

theorem reports_walkSearch (options : SearchOptions) : ∀ (levels : Nat)
    (directory directoryPath : JsString) (state : SearchState),
      Reports outside (Operation.search request).Leaks
        (service.walkSearch options levels directory directoryPath state)
  | 0, _, _, _ => reports_searchIn (by rintro _ ⟨⟩) _ _ _ _
  | levels + 1, _, _, _ => reports_searchIn (by
      rintro descent ⟨⟩
      exact reports_walkSearch options levels) _ _ _ _

end

theorem reports_service_search {request : SearchRequest} (h : service.Resolves request.workspaceId) :
    Reports outside (Operation.search request).Leaks (service.search request) := by
  unfold Service.search Service.prepareSearch Service.searchPath
  refine .bind ?_ fun prepared => .bind (.bind (reports_resolveExistingPath _ _)
    fun absolutePath => reports_walkSearch _ _ _ _ _) fun _ => .pure _
  refine .bind (reports_accessWorkspace h) fun root => .bind (.ofExcept _) fun path => ?_
  refine .bind (.ofExcept _) fun glob => .bind (.ofExcept _) fun query => ?_
  refine .bind (.ofExcept _) fun maxResults => .bind (.ofExcept _) fun maxBytes => ?_
  exact .bind (.ofExcept _) fun maxDepth => .bind (.ofExcept _) fun maxFileBytes => .pure _

end

/-! ## Writing and patching -/

section
variable {outside : Nat → Turn} {service : Service} {op : Operation}

theorem hashedFrom_out {handle : Handle} {position : Nat} (h : maxSafeInteger < position)
    (fuel : Nat) (hashed : Bytes) :
    hashedFrom handle fuel position hashed = throw (.error (positionError position)) := by
  cases fuel with
  | zero => rfl
  | succ fuel => rw [hashedFrom, if_pos h]

theorem overlong_iff {e : Event} {handle : Handle} {position : Nat} {bytes : Bytes} {mode : Mode}
    (hcall : e.call = .read handle position hashChunkBytes) (hok : e.ok = true)
    (hnode : handle.node = .file bytes mode) :
    Overlong e ↔ maxSafeInteger < position + ((bytes.drop position).take hashChunkBytes).length := by
  constructor
  · rintro ⟨handle', position', bytes', mode', hcall', -, hnode', hlong⟩
    rw [hcall] at hcall'
    cases hcall'
    rw [hnode] at hnode'
    cases hnode'
    exact hlong
  · exact fun hlong => ⟨handle, position, bytes, mode, hcall, hok, hnode, hlong⟩

/-- A read that hashes leaks when it fails or is too long. -/
theorem reports_hashedFrom (hop : op.hashes = true) (handle : Handle) :
    ∀ (fuel position : Nat) (hashed : Bytes), position ≤ maxSafeInteger →
      maxSafeInteger + 1 < position + fuel →
      Reports outside op.Leaks (hashedFrom handle fuel position hashed)
  | 0, position, _, hposition, hfuel => by omega
  | fuel + 1, position, hashed, hposition, hfuel => by
      unfold hashedFrom
      rw [if_neg (by omega)]
      intro w h
      refine Async.wp_bind.mpr (wp_call ?_ ?_)
      · intro chunk e hperform hcall hok _
        obtain ⟨bytes, mode, hnode, rfl⟩ := perform_read hperform
        have hputs : ¬ Puts e := not_puts_of_placing
          (placing_of_readOnly (c := .read handle position hashChunkBytes) trivial) hcall
        have hleaks : op.Leaks e ↔
            maxSafeInteger < position + ((bytes.drop position).take hashChunkBytes).length := by
          rw [← overlong_iff hcall hok hnode]
          unfold Operation.Leaks
          rw [hok, hop]
          simp
        split
        · rename_i hnil
          refine h.cons (fun hleak => ?_) hputs
          have hlong := hleaks.mp hleak
          rw [hnil, List.length_nil] at hlong
          omega
        · rename_i hnil
          have hpos := List.length_pos_iff.mpr hnil
          by_cases hlong : maxSafeInteger <
              position + ((bytes.drop position).take hashChunkBytes).length
          · rw [hashedFrom_out hlong]
            exact .inr ⟨fun _ => Thrown.noConfusion, h.leak (hleaks.mpr hlong)⟩
          · exact reports_hashedFrom hop handle fuel _ _ (by omega) (by omega) _
              (h.cons (fun hleak => hlong (hleaks.mp hleak)) hputs)
      · intro error e _ hcall hok _
        refine .inr ⟨fun _ => Thrown.noConfusion, h.leak (.inl ⟨hok, ?_⟩)⟩
        rw [hcall]
        cases op <;> trivial

theorem reports_inspectWriteTarget (hop : op.hashes = true) (target path : JsString) :
    Reports outside op.Leaks (service.inspectWriteTarget target path) := by
  unfold Service.inspectWriteTarget
  have hlstat : ¬ op.Bare (.lstat target) := by
    cases op with
    | list request => cases hop
    | _ => exact id
  refine .bind (.handled (.map (tight_call (not_leaks hlstat (by rintro _ _ _ ⟨⟩))
    (placing_of_readOnly trivial))) fun error => ?_) fun stats => ?_
  · split
    · exact .pure _
    · obtain ⟨e, he⟩ := mapFilesystemError_filesystem path error
      rw [he]
      exact .throw e
  split
  · exact .pure _
  refine .bind (.failWhen _ _ _ _) fun _ => .bind (.failWhen _ _ _ _) fun _ => ?_
  refine .bind ?_ fun sha256 => .pure _
  unfold Service.sha256File
  refine .bind (.mapError (tight_openRead _) (mapFilesystemError_filesystem _)) fun handle => ?_
  exact .bind (reports_close handle (reports_hashedFrom hop handle _ 0 [] (Nat.zero_le _) (by omega)))
    fun _ => .pure _

theorem reports_staging (handle : Handle) (initial : WriteTargetState) (content : Bytes) :
    Reports outside op.Leaks
      (tryFinally (stageContent handle initial content) (Handle.close handle)) := by
  refine reports_close handle ?_
  unfold stageContent
  refine .bind ?_ fun _ => .bind (.bare (leaks_bare (by cases op <;> trivial) (by rintro _ _ _ ⟨⟩))
    (placing_of_edits (.writeFile rfl content))) fun _ => .bare (leaks_bare (by cases op <;> trivial)
    (by rintro _ _ _ ⟨⟩)) (placing_of_readOnly trivial)
  split
  · exact .bare (leaks_bare (by cases op <;> trivial) (by rintro _ _ _ ⟨⟩))
      (placing_of_edits (.chmod rfl initial.mode))
  · exact .pure _

/-- Something was put in place before any leak: there is none from then on. -/
structure Settled (leaks : Event → Prop) (log : List Event) : Prop where
  whole : ¬ Leaked leaks log
  put : ∃ e ∈ log, Puts e

theorem Settled.cons {leaks : Event → Prop} {log : List Event} (h : Settled leaks log) (e : Event) :
    Settled leaks (e :: log) := by
  obtain ⟨e', he', hputs⟩ := h.put
  exact ⟨fun hleaked => hleaked.elim h.whole fun hnew => hnew.2 e' he' hputs,
    e', List.mem_cons_of_mem e he', hputs⟩

/-- Nothing that follows a commit leaks. -/
theorem wp_settled {α : Type} {p : Async α} {leaks : Event → Prop} {w : World}
    (h : Settled leaks w.log) :
    Async.Wp (answer outside) p (fun _ w' => Settled leaks w'.log)
      (fun _ w' => Settled leaks w'.log) w := by
  refine Async.wp_invariant (fun c w' h' => ?_) h
  obtain ⟨e, hw, -⟩ := took_answer outside c w'
  rw [hw]
  exact h'.cons e

theorem wp_commitTemp_blames {options : WriteOptions} {temp : JsString} {w : World}
    (h : Clear op.Leaks w.log) :
    Async.Wp (answer outside) (commitTemp options temp) (fun _ w' => Settled op.Leaks w'.log)
      (fun error w' => Blames op.Leaks error w'.log) w := by
  have hlink (e : Event) (hcall : e.call = .link temp options.target) : ¬ op.Leaks e :=
    not_leaks (by cases op <;> exact id) (by rintro _ _ _ ⟨⟩) e hcall
  have hrename (e : Event) (hcall : e.call = .rename temp options.target) : ¬ op.Leaks e :=
    not_leaks (by cases op <;> exact id) (by rintro _ _ _ ⟨⟩) e hcall
  have hrefused {e : Event} (hleaks : ¬ op.Leaks e) (hok : e.ok = false) :
      Clear op.Leaks (e :: w.log) := h.cons hleaks fun hputs => by simp [Puts, hok] at hputs
  have hput {e : Event} (hleaks : ¬ op.Leaks e) (hputs : Puts e) : Settled op.Leaks (e :: w.log) :=
    ⟨fun hleaked => hleaked.elim h.whole fun hnew => hleaks hnew.1, e, List.mem_cons_self, hputs⟩
  unfold commitTemp
  split
  · refine Async.wp_bind.mpr (Async.wp_tryCatch.mpr (wp_call ?_ ?_))
    · intro _ e _ hcall hok _
      have hsettled := hput (hlink e hcall) ⟨hok, .inl ⟨_, _, hcall⟩⟩
      exact Async.wp_ignoreErrors.mpr ((wp_settled (w := ⟨e.after, e :: w.log⟩) hsettled).mono
        (fun _ _ h' => h') fun _ _ h' => h')
    · intro error e _ hcall hok _
      have hclear := hrefused (hlink e hcall) hok
      split
      · exact .inl ⟨⟨_, rfl⟩, hclear⟩
      · obtain ⟨e', he'⟩ := mapWriteFailure_filesystem options.path (.errno error)
        rw [he']
        exact .inl ⟨⟨e', rfl⟩, hclear⟩
  · refine Async.wp_mapError.mpr (wp_call ?_ ?_)
    · intro _ e _ hcall hok _
      exact hput (hrename e hcall) ⟨hok, .inr ⟨_, _, hcall⟩⟩
    · intro error e _ hcall hok _
      exact .inl ⟨mapWriteFailure_filesystem _ _, hrefused (hrename e hcall) hok⟩

theorem wp_writeAtomic_blames (hop : op.hashes = true) {uuid : JsString} {options : WriteOptions}
    {w : World} (h : Clear op.Leaks w.log) :
    Async.Wp (answer outside) (service.writeAtomic uuid options)
      (fun _ w' => ¬ Leaked op.Leaks w'.log) (fun error w' => Blames op.Leaks error w'.log) w := by
  have hrm (e : Event) (hcall : e.call = .rm (service.tempPath uuid options)) : ¬ op.Leaks e :=
    not_leaks (by cases op <;> exact id) (by rintro _ _ _ ⟨⟩) e hcall
  have hopen (mode : Mode) : Tight outside op.Leaks
      (openExclusive (service.tempPath uuid options) mode) :=
    tight_call (not_leaks (by cases op <;> exact id) (by rintro _ _ _ ⟨⟩))
      (placing_openExclusive _ _)
  unfold Service.writeAtomic
  refine Async.wp_bind.mpr ((reports_inspectWriteTarget hop _ _ w h).mono (fun initial w₁ h₁ => ?_)
    fun _ _ h' => h')
  refine Async.wp_bind.mpr (wp_ofExcept (fun _ _ => ?_) fun e _ => .inl ⟨⟨e, rfl⟩, h₁⟩)
  refine Local.wp_tryFinally.mpr (Local.Wp.mono (Q := fun _ s w' => s.renamed = true ∧
    Settled op.Leaks w'.log) (E := fun error _ w' => Blames op.Leaks error w'.log) ?_
    (fun _ s w₂ h₂ => ?_) fun error s w₂ h₂ => ?_)
  · unfold Service.writeBody
    refine Local.wp_bind.mpr (Local.wp_lift.mpr ((Reports.mapError (hopen _)
      (mapWriteFailure_filesystem _) w₁ h₁).mono (fun handle w₂ h₂ => ?_) fun _ _ h' => h'))
    refine Local.wp_bind.mpr (Local.wp_assign.mpr (Local.wp_bind.mpr (Local.wp_lift.mpr ?_)))
    refine (reports_staging handle initial options.content w₂ h₂).mono (fun _ w₃ h₃ => ?_)
      fun _ _ h' => h'
    refine Local.wp_bind.mpr (Local.wp_lift.mpr ?_)
    refine (reports_inspectWriteTarget hop _ _ w₃ h₃).mono (fun before w₄ h₄ => ?_)
      fun _ _ h' => h'
    refine Local.wp_bind.mpr (Local.wp_lift.mpr (wp_ofExcept (fun _ _ => ?_)
      fun e _ => .inl ⟨⟨e, rfl⟩, h₄⟩))
    refine Local.wp_bind.mpr (Local.wp_lift.mpr ?_)
    refine (wp_commitTemp_blames h₄).mono (fun _ w₅ h₅ => ?_) fun _ _ h' => h'
    refine Local.wp_bind.mpr (Local.wp_assign.mpr (Local.wp_bind.mpr (Local.wp_lift.mpr ?_)))
    refine Async.wp_tryCatch.mpr ((wp_settled h₅).mono (fun _ w₆ h₆ => ?_) fun _ w₆ h₆ => ?_)
    · exact ⟨rfl, h₆⟩
    · exact ⟨rfl, h₆⟩
  · rw [h₂.1, Bool.not_true, Bool.and_false]
    exact h₂.2.whole
  · split
    · obtain ⟨hthrown, hclear⟩ | ⟨hthrown, hleaked⟩ := h₂
      · refine Async.wp_ignoreErrors.mpr (wp_call ?_ ?_)
        · exact fun _ e _ hcall _ _ => .inl ⟨hthrown, hclear.cons (hrm e hcall)
            (not_puts_of_placing (placing_rm _) hcall)⟩
        · exact fun _ e _ hcall _ _ => .inl ⟨hthrown, hclear.cons (hrm e hcall)
            (not_puts_of_placing (placing_rm _) hcall)⟩
      · refine Async.wp_ignoreErrors.mpr (wp_call ?_ ?_)
        · exact fun _ _ _ _ _ _ => .inr ⟨hthrown, .inl hleaked⟩
        · exact fun _ _ _ _ _ _ => .inr ⟨hthrown, .inl hleaked⟩
    · exact h₂

section
attribute [local irreducible] Async.Wp

theorem reports_writeTarget (root path : JsString) (verb : String) (hop : op.hashes = true) :
    Reports outside op.Leaks (writeTarget root path verb) := by
  have hlstat (p : JsString) : ¬ op.Bare (.lstat p) := by
    cases op with
    | list request => cases hop
    | _ => exact id
  unfold writeTarget
  refine .bind (reports_resolveExistingPath _ _) fun canonicalParent => ?_
  refine .bind (.mapError (tight_call (not_leaks (hlstat _) (by rintro _ _ _ ⟨⟩))
    (placing_of_readOnly trivial)) (mapFilesystemError_filesystem _)) fun parentStats => ?_
  exact .bind (.failWhen _ _ _ _) fun _ => .bind (.failWhen _ _ _ _) fun _ => .pure _

theorem reports_prepareWrite (hop : op.hashes = true) {request : WriteRequest}
    (h : service.Resolves request.workspaceId) :
    Reports outside op.Leaks (service.prepareWrite request) := by
  unfold Service.prepareWrite
  refine .bind (.failWhen _ _ _ _) fun _ => .bind (.ofExcept _) fun expected => ?_
  refine .bind (reports_accessWorkspace h) fun root => .bind (.ofExcept _) fun path => ?_
  exact .bind (reports_writeTarget _ _ _ hop) fun _ => .pure _

theorem reports_preparePatch (hop : op.hashes = true) {request : PatchRequest}
    (h : service.Resolves request.workspaceId) :
    Reports outside op.Leaks (service.preparePatch request) := by
  unfold Service.preparePatch
  refine .bind (.ofExcept _) fun expected => .bind (.ofExcept _) fun edits => ?_
  refine .bind (reports_accessWorkspace h) fun root => .bind (.ofExcept _) fun path => ?_
  exact .bind (reports_writeTarget _ _ _ hop) fun _ => .pure _

theorem reports_readWholeFile (target path : JsString) (size : Nat) :
    Reports outside op.Leaks (readWholeFile target path size) := by
  unfold readWholeFile
  refine .bind (.failWhen _ _ _ _) fun _ => ?_
  refine .bind (.mapError (tight_openRead _) (mapFilesystemError_filesystem _)) fun handle => ?_
  refine reports_close handle ?_
  refine .bind (.bare (leaks_bare (by cases op <;> trivial) (by rintro _ _ _ ⟨⟩))
    (placing_of_readOnly trivial)) fun data => ?_
  exact .bind (.failWhen _ _ _ _) fun _ => .pure _

end

theorem reports_patchedContent (hop : op.hashes = true) (options : PatchOptions) :
    Reports outside op.Leaks (service.patchedContent options) := by
  unfold Service.patchedContent
  refine .bind (reports_inspectWriteTarget hop _ _) fun initial => ?_
  refine .bind (.ofExcept _) fun _ => .bind (.failWhen _ _ _ _) fun _ => ?_
  refine .bind (reports_readWholeFile _ _ _) fun source => .bind (.ofExcept _) fun _ => ?_
  intro w h
  refine Async.wp_bind.mpr (wp_failWhen (fun hbinary => ?_) fun _ => .inl ⟨⟨_, rfl⟩, h⟩)
  have htext : classifyBuffer source = .text := by
    cases hclass : classifyBuffer source with
    | text => rfl
    | binary => simp [hclass] at hbinary
  obtain ⟨text, heq⟩ := decodeUtf8_of_text htext
  rw [heq]
  refine Reports.bind (.pure text) (fun source => ?_) w h
  exact .bind (.ofExcept _) fun planned => .bind (.failWhen _ _ _ _) fun _ => .pure _

/-- The handler of a failing commit keeps the blame. -/
theorem wp_patchFailure_blames (hop : op.hashes = true) {options : PatchOptions} {error : Thrown}
    {w : World} (h : Blames op.Leaks error w.log) :
    Async.Wp (answer outside) (service.patchFailure options error)
      (fun _ w' => ¬ Leaked op.Leaks w'.log) (fun error w' => Blames op.Leaks error w'.log) w := by
  obtain ⟨⟨e, rfl⟩, hclear⟩ | ⟨hthrown, hleaked⟩ := h
  · have hreports : Reports outside op.Leaks
        (service.patchFailure options (.filesystem e)) := by
      unfold Service.patchFailure
      split
      · exact .bind (reports_inspectWriteTarget hop _ _) fun _ => .ofExcept _
      · dsimp only
        split <;> exact .throw _
    exact (hreports w hclear).mono (fun _ _ h' => h'.whole) fun _ _ h' => h'
  · cases error with
    | filesystem e => exact absurd rfl (hthrown e)
    | errno e => exact .inr ⟨hthrown, hleaked⟩
    | error e => exact .inr ⟨hthrown, hleaked⟩

theorem wp_service_patch_blames (hop : op.hashes = true) {uuid : JsString} {request : PatchRequest}
    (hresolves : service.Resolves request.workspaceId) {w : World} (h : Clear op.Leaks w.log) :
    Async.Wp (answer outside) (service.patch uuid request)
      (fun _ w' => ¬ Leaked op.Leaks w'.log) (fun error w' => Blames op.Leaks error w'.log) w := by
  unfold Service.patch
  refine Async.wp_bind.mpr ((reports_preparePatch hop hresolves w h).mono (fun options w₁ h₁ => ?_)
    fun _ _ h' => h')
  refine Async.wp_bind.mpr ((reports_patchedContent hop options w₁ h₁).mono
    (fun found w₂ h₂ => ?_) fun _ _ h' => h')
  obtain ⟨content, editsApplied⟩ := found
  refine Async.wp_bind.mpr (Async.wp_tryCatch.mpr ((wp_writeAtomic_blames hop h₂).mono
    (fun _ _ h₃ => h₃) fun error w₃ h₃ => ?_))
  exact (wp_patchFailure_blames hop h₃).mono (fun _ _ h₄ => h₄) fun _ _ h₄ => h₄

theorem wp_service_write_blames (hop : op.hashes = true) {uuid : JsString} {request : WriteRequest}
    (hresolves : service.Resolves request.workspaceId) {w : World} (h : Clear op.Leaks w.log) :
    Async.Wp (answer outside) (service.write uuid request)
      (fun _ w' => ¬ Leaked op.Leaks w'.log) (fun error w' => Blames op.Leaks error w'.log) w := by
  unfold Service.write
  exact Async.wp_bind.mpr ((reports_prepareWrite hop hresolves w h).mono
    (fun options w₁ h₁ => wp_writeAtomic_blames hop h₁) fun _ _ h' => h')

end

/-! ## Operations -/

section
variable {outside : Nat → Turn} {service : Service}

theorem wp_operation_blames (op : Operation) (hresolves : service.Resolves op.workspaceId)
    {w : World} (h : Clear op.Leaks w.log) :
    Async.Wp (answer outside) (op.run service) (fun _ w' => ¬ Leaked op.Leaks w'.log)
      (fun error w' => Blames op.Leaks error w'.log) w := by
  cases op with
  | read request =>
      exact (reports_service_read hresolves w h).mono (fun _ _ h' => h'.whole) fun _ _ h' => h'
  | list request =>
      exact (reports_service_list hresolves w h).mono (fun _ _ h' => h'.whole) fun _ _ h' => h'
  | search request =>
      exact (reports_service_search hresolves w h).mono (fun _ _ h' => h'.whole) fun _ _ h' => h'
  | write uuid request => exact wp_service_write_blames rfl hresolves h
  | patch uuid request => exact wp_service_patch_blames rfl hresolves h

/-- An operation that is not admitted asks nobody. -/
theorem run_of_not_admitted {op : Operation} (h : ¬ op.Admitted) :
    ∃ e, op.run service = throw (.filesystem e) := by
  cases op with
  | read | list | search => exact absurd trivial h
  | write uuid request =>
      change ∃ e, service.write uuid request = throw (.filesystem e)
      unfold Service.write Service.prepareWrite
      by_cases hsize : maxWriteBytes < (encodeUtf8 request.content).length
      · dsimp only
        rw [decide_eq_true hsize]
        exact ⟨_, rfl⟩
      · cases hexpected : normalizeExpectedSha256 request.expectedSha256 with
        | ok expected => exact absurd ⟨Nat.le_of_not_lt hsize, expected, hexpected⟩ h
        | error e =>
            dsimp only
            rw [decide_eq_false hsize]
            exact ⟨e, rfl⟩
  | patch uuid request =>
      change ∃ e, service.patch uuid request = throw (.filesystem e)
      unfold Service.patch Service.preparePatch
      cases hexpected : normalizeRequiredSha256 request.expectedSha256 "expectedSha256" with
      | error e => exact ⟨e, rfl⟩
      | ok expected =>
          cases hedits : normalizePatchEdits request.edits with
          | ok edits => exact absurd ⟨⟨expected, hexpected⟩, edits, hedits⟩ h
          | error e => exact ⟨e, rfl⟩

/-- What the registry throws is what an admitted operation throws. -/
theorem run_of_unresolved {op : Operation} (h : op.Admitted) {error : Thrown}
    (hthrown : service.resolveWorkspace op.workspaceId = .error error) :
    op.run service = throw error := by
  have haccess : service.accessWorkspace op.workspaceId = throw error := by
    rw [Service.accessWorkspace, hthrown]
  cases op with
  | read request =>
      change service.read request = throw error
      rw [Service.read, show service.accessWorkspace request.workspaceId = throw error from haccess]
      rfl
  | list request =>
      change service.list request = throw error
      rw [Service.list, show service.accessWorkspace request.workspaceId = throw error from haccess]
      rfl
  | search request =>
      change service.search request = throw error
      rw [Service.search, Service.prepareSearch,
        show service.accessWorkspace request.workspaceId = throw error from haccess]
      rfl
  | write uuid request =>
      obtain ⟨hsize, expected, hexpected⟩ := h
      change service.write uuid request = throw error
      unfold Service.write Service.prepareWrite
      dsimp only
      rw [decide_eq_false (Nat.not_lt.mpr hsize), hexpected,
        show service.accessWorkspace request.workspaceId = throw error from haccess]
      rfl
  | patch uuid request =>
      obtain ⟨⟨expected, hexpected⟩, edits, hedits⟩ := h
      change service.patch uuid request = throw error
      unfold Service.patch Service.preparePatch
      rw [hexpected, hedits,
        show service.accessWorkspace request.workspaceId = throw error from haccess]
      rfl

/-- An operation succeeds or throws a FilesystemError just when the registry
throws nothing else and nothing leaks. -/
theorem failures_reported_iff (op : Operation) {v : Volume} {outcome : Except Thrown op.Result}
    {w : World} (hrun : Prog.run (answer outside) (op.run service).run ⟨v, []⟩ = (outcome, w)) :
    (∀ error, outcome = .error error → ∃ e, error = .filesystem e) ↔
      ¬ op.Unresolved service ∧ ¬ Leaked op.Leaks w.log := by
  have hclear : Clear op.Leaks (⟨v, []⟩ : World).log := ⟨id, List.forall_mem_nil _⟩
  by_cases hadmitted : op.Admitted
  · by_cases hresolves : service.Resolves op.workspaceId
    · have hresolved : ¬ op.Unresolved service := fun hunresolved => hunresolved.2 hresolves
      have h : Async.Wp (answer outside) (op.run service) _ _ ⟨v, []⟩ :=
        wp_operation_blames op hresolves hclear
      rw [Async.wp_iff, hrun] at h
      cases outcome with
      | ok result => exact iff_of_true (by rintro _ ⟨⟩) ⟨hresolved, h⟩
      | error error =>
          obtain ⟨⟨e, rfl⟩, hclear⟩ | ⟨hthrown, hleaked⟩ := h
          · refine iff_of_true ?_ ⟨hresolved, hclear.whole⟩
            rintro _ ⟨⟩
            exact ⟨e, rfl⟩
          · refine iff_of_false (fun hreported => ?_) fun hwhole => hwhole.2 hleaked
            obtain ⟨e, he⟩ := hreported error rfl
            exact hthrown e he
    · obtain ⟨error, hnot⟩ := not_forall.mp hresolves
      obtain ⟨hthrown, hforeign⟩ := Classical.not_imp.mp hnot
      rw [run_of_unresolved hadmitted hthrown] at hrun
      obtain ⟨rfl, rfl⟩ := Prod.mk.inj hrun
      exact iff_of_false (fun hreported => hforeign (hreported error rfl)) fun hwhole =>
        hwhole.1 ⟨hadmitted, hresolves⟩
  · obtain ⟨e, he⟩ := @run_of_not_admitted service _ hadmitted
    rw [he] at hrun
    obtain ⟨rfl, rfl⟩ := Prod.mk.inj hrun
    refine iff_of_true ?_ ⟨fun hunresolved => hadmitted hunresolved.1, hclear.whole⟩
    rintro _ ⟨⟩
    exact ⟨e, rfl⟩

end

/-- A search in a regular file. -/
def inFile : SearchRequest where
  workspaceId := js "ws"
  path := some (js "a")
  glob := none
  query := none
  maxResults := none
  maxBytes := none
  maxDepth := none
  maxFileBytes := none

def searchedFile : Except Thrown SearchResult × World :=
  Prog.run (answer still) (oneWorkspace.search inFile).run ⟨oneFile [], []⟩

/-- The registry knows the workspace, so it is `readdir` that leaks. -/
theorem failures_reported_iff_file : Leaked (Operation.search inFile).Leaks searchedFile.2.log := by
  have hthrown : searchedFile.1 =
      .error (.errno (Reason.ENOTDIR.errno "scandir" (quoted (js "/ws/a")))) := by
    decide +kernel
  have hresolved : ¬ (Operation.search inFile).Unresolved oneWorkspace := by
    rintro ⟨-, hforeign⟩
    exact hforeign (by rintro _ ⟨⟩)
  have hiff := @failures_reported_iff still oneWorkspace (.search inFile) _ searchedFile.1
    searchedFile.2 rfl
  by_contra hwhole
  obtain ⟨e, he⟩ := hiff.mpr ⟨hresolved, hwhole⟩ _ hthrown
  cases he

/-- The regular file cannot be listed, and the exception of `readdir` gets out. -/
theorem search_file_unreported :
    ¬ ∀ error, searchedFile.1 = .error error → ∃ e, error = .filesystem e := by
  have hout : searchedFile.1 =
      .error (.errno (Reason.ENOTDIR.errno "scandir" (quoted (js "/ws/a")))) := by
    decide +kernel
  intro h
  obtain ⟨e, he⟩ := h _ hout
  cases he

end Benchhand.Filesystem
