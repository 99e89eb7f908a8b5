/-
Benchhand.Filesystem.ListTheorems — directory pagination.

Names are ordered by their code points, cursors are read back as they were
written, and the pages that `list` returns are pages of the sorted snapshots.
`list_pages` puts this together for a directory that changes between requests.
-/
import Benchhand.Filesystem.List
import Benchhand.Process.Traces
import Benchhand.Store.Paging
import Mathlib.Data.List.Lex

namespace Benchhand.Filesystem

open Text Posix Js Process Store

/-! ## The order of names -/

theorem comparePoints_eq : ∀ left right : List Nat,
    (comparePoints left right < 0 ↔ left < right) ∧ (comparePoints left right = 0 ↔ left = right)
  | [], [] => by simp [comparePoints]
  | [], _ :: rights => by
      simp only [comparePoints, List.length_nil, List.length_cons, List.nil_lt_cons, iff_true,
        reduceCtorEq, iff_false]
      omega
  | _ :: lefts, [] => by
      simp only [comparePoints, List.length_nil, List.length_cons, List.not_lt_nil, iff_false,
        reduceCtorEq]
      omega
  | left :: lefts, right :: rights => by
      obtain ⟨hlt, heq⟩ := comparePoints_eq lefts rights
      rw [comparePoints, List.cons_lt_cons_iff, List.cons.injEq, ← hlt, ← heq]
      split <;> omega

/-- The units of a code point. -/
def pointUnits (n : Nat) : JsString :=
  if n < 0x10000 then [UInt16.ofNat n] else units (scalarOf n)

theorem flatMap_pointUnits : ∀ s : JsString, (codePoints s).flatMap pointUnits = s
  | [] => rfl
  | [u] => by
      simp [codePoints, pointUnits, u.toNat_lt]
  | u :: v :: rest => by
      have hu : pointUnits u.toNat = [u] := by
        rw [pointUnits, if_pos u.toNat_lt, UInt16.ofNat_toNat]
      rw [codePoints]
      split
      · rename_i hpair
        rw [Bool.and_eq_true] at hpair
        have hpoint : ¬ pairPoint u v < 0x10000 := by
          have hu := (isHigh_iff u).mp hpair.1
          have hv := (isLow_iff v).mp hpair.2
          rw [pairPoint_eq]
          omega
        rw [List.flatMap_cons, flatMap_pointUnits rest, pointUnits, if_neg hpoint,
          units_scalarOf_pairPoint hpair.1 hpair.2]
        rfl
      · rw [List.flatMap_cons, flatMap_pointUnits (v :: rest), hu]
        rfl

theorem codePoints_injective : Function.Injective codePoints := fun s t h => by
  rw [← flatMap_pointUnits s, h, flatMap_pointUnits]

theorem compareCodePoints_neg_iff (left right : JsString) :
    compareCodePoints left right < 0 ↔ codePoints left < codePoints right :=
  (comparePoints_eq _ _).1

theorem compareCodePoints_eq_zero_iff (left right : JsString) :
    compareCodePoints left right = 0 ↔ codePoints left = codePoints right :=
  (comparePoints_eq _ _).2

theorem compareCodePoints_le_iff (left right : JsString) :
    compareCodePoints left right ≤ 0 ↔ codePoints left ≤ codePoints right := by
  rw [le_iff_lt_or_eq, compareCodePoints_neg_iff, compareCodePoints_eq_zero_iff,
    ← le_iff_lt_or_eq]

theorem compareCodePoints_pos_iff (left right : JsString) :
    0 < compareCodePoints left right ↔ codePoints right < codePoints left := by
  rw [← not_le, compareCodePoints_le_iff, not_le]

/-! ## Cursors -/

/-- A cursor is read back as it was written. -/
theorem decodeListCursor_encode (cursor : ListCursor) (hafter : cursor.after ≠ []) :
    decodeListCursor (encodeListCursor cursor) cursor.path = .ok cursor := by
  have hkeys : cursor.tree.KeysNodup := by
    have hnodup : [js "version", js "path", js "after"].Nodup := by decide
    refine ⟨?_, trivial, trivial, trivial, trivial⟩
    simpa only [Node.keys] using hnodup
  have htext : Json.stringify (Graph.ofTree cursor.tree) = .ok (some cursor.tree.text) :=
    stringify_of_denotes (Graph.ofTree_denotes hkeys)
  have hwire : cursor.tree.wire = cursor.tree := rfl
  have hparse : Json.parse cursor.tree.text = some (Graph.ofTree cursor.tree) := by
    rw [Json.parse, parseTree_text, hwire]
    rfl
  rw [encodeListCursor, htext, decodeListCursor, ofBase64_base64Url,
    decodeUtf8Lossy_encodeUtf8 (wellFormed_text _), hparse]
  have hversion : (Graph.ofTree cursor.tree).heap.property (Graph.ofTree cursor.tree).root
      (js "version") = .number (.finite .one) := rfl
  have hpath : (Graph.ofTree cursor.tree).heap.property (Graph.ofTree cursor.tree).root
      (js "path") = .string cursor.path := rfl
  have hname : (Graph.ofTree cursor.tree).heap.property (Graph.ofTree cursor.tree).root
      (js "after") = .string cursor.after := rfl
  simp only [hversion, hpath, hname, and_self, if_true, if_neg hafter]

/-! ## Pages of a snapshot -/

/-- The order of entries, as a key. -/
def ListEntry.key (entry : ListEntry) : List Nat := codePoints entry.name

theorem perm_sortEntries (listed : List ListEntry) : (sortEntries listed).Perm listed :=
  List.perm_insertionSort _ _

/-- Entries with distinct names are sorted strictly. -/
theorem pairwise_sortEntries {listed : List ListEntry} (h : (listed.map ListEntry.name).Nodup) :
    (sortEntries listed).Pairwise fun a b => a.key < b.key := by
  let le := fun a b : ListEntry => compareCodePoints a.name b.name ≤ 0
  have hle : ∀ a b, le a b ↔ a.key ≤ b.key := fun a b => compareCodePoints_le_iff a.name b.name
  have : Std.Total le := ⟨fun a b => by rw [hle, hle]; exact le_total _ _⟩
  have : IsTrans ListEntry le := ⟨fun a b c => by rw [hle, hle, hle]; exact le_trans⟩
  have hsorted : (sortEntries listed).Pairwise le := List.pairwise_insertionSort le listed
  have hnodup : (sortEntries listed).Pairwise fun a b => a.name ≠ b.name :=
    List.pairwise_map.mp (((perm_sortEntries listed).map _).nodup_iff.mpr h)
  refine (hsorted.and hnodup).imp fun {a b} hab => lt_of_le_of_ne ((hle a b).mp hab.1) ?_
  exact fun heq => hab.2 (codePoints_injective heq)

/-- Where a page starts. -/
def pageStart (cursor : Option ListCursor) (listed : List ListEntry) : Nat :=
  match cursor with
  | none => 0
  | some cursor =>
      (listed.findIdx? fun entry => 0 < compareCodePoints entry.name cursor.after).getD
        listed.length

theorem drop_pageStart (cursor : Option ListCursor) {listed : List ListEntry}
    (hsorted : listed.Pairwise fun a b => a.key < b.key) :
    listed.drop (pageStart cursor listed) =
      behind ListEntry.key (cursor.map fun c => codePoints c.after) listed := by
  cases cursor with
  | none => simp [pageStart, behind]
  | some cursor =>
      rw [Option.map_some, ← drop_findIdx? _ hsorted, pageStart]
      refine congrArg (fun f => listed.drop ((listed.findIdx? f).getD listed.length))
        (funext fun entry => ?_)
      exact decide_eq_decide.mpr (compareCodePoints_pos_iff _ _)

/-- What is left behind a page. -/
def pageTail (cursor : Option ListCursor) (limit : Nat) (listed : List ListEntry) :
    List ListEntry :=
  (behind ListEntry.key (cursor.map fun c => codePoints c.after) listed).drop limit

/-- The result of `pageOf` is a page of the sorted entries, and has a cursor to
its last name just when something is left. -/
theorem pageOf_cut (path : JsString) (cursor : Option ListCursor) {limit : Nat} (hlimit : 0 < limit)
    {listed : List ListEntry} (hsorted : listed.Pairwise fun a b => a.key < b.key) :
    Page.Cut ListEntry.key (cursor.map fun c => codePoints c.after)
        ⟨listed, (pageOf path cursor limit listed).entries, pageTail cursor limit listed⟩ ∧
      (pageOf path cursor limit listed).nextCursor =
        if pageTail cursor limit listed = [] then none
        else some (encodeListCursor ⟨path,
          ((pageOf path cursor limit listed).entries.getLast?.map ListEntry.name).getD []⟩) := by
  have hdrop := drop_pageStart cursor hsorted
  have hentries : (pageOf path cursor limit listed).entries =
      (behind ListEntry.key (cursor.map fun c => codePoints c.after) listed).take limit := by
    rw [← hdrop]
    rfl
  have hmore : (pageStart cursor listed + ((listed.drop (pageStart cursor listed)).take
      limit).length < listed.length ∧ 0 < ((listed.drop (pageStart cursor listed)).take
      limit).length) ↔ pageTail cursor limit listed ≠ [] := by
    rw [← List.length_pos_iff, pageTail, ← hdrop]
    simp only [List.length_take, List.length_drop]
    omega
  refine ⟨⟨hsorted, ?_, fun hnil => ?_⟩, ?_⟩
  · dsimp only
    rw [hentries, pageTail, List.take_append_drop]
  · dsimp only at hnil ⊢
    rw [hentries, List.take_eq_nil_iff] at hnil
    rw [pageTail, hnil.resolve_left hlimit.ne', List.drop_nil]
  · have hnext : (pageOf path cursor limit listed).nextCursor =
        if pageStart cursor listed + ((listed.drop (pageStart cursor listed)).take
          limit).length < listed.length ∧ 0 < ((listed.drop (pageStart cursor listed)).take
          limit).length then some (encodeListCursor ⟨path,
            ((pageOf path cursor limit listed).entries.getLast?.map ListEntry.name).getD []⟩)
        else none := rfl
    rw [hnext]
    split
    · rename_i h
      rw [if_neg (hmore.mp h)]
    · rename_i h
      rw [if_pos (not_not.mp fun hne => h (hmore.mpr hne))]

/-! ## A request -/

theorem returns_ofExcept {α : Type} {r : Except FilesystemError α} {trace : Trace Call Answer}
    {a : α} : Async.Returns (ofExcept r) trace a ↔ trace = [] ∧ r = .ok a := by
  cases r with
  | ok a' =>
      exact Async.returns_pure.trans (and_congr_right' (by rw [Except.ok.injEq]))
  | error e =>
      refine ⟨fun h => absurd h Async.not_returns_throw, fun h => ?_⟩
      exact absurd h.2 (by simp)

theorem returns_call {c : Call} {trace : Trace Call Answer} {a : c.Returns} :
    Async.Returns (call c) trace a ↔ trace = [⟨c, .ok a⟩] := by
  refine Async.returns_request.trans ⟨fun h => ?_, fun h => ⟨.ok a, h, rfl⟩⟩
  obtain ⟨r, rfl, hr⟩ := h
  cases r with
  | ok a' =>
      obtain rfl : a' = a := Except.ok.inj hr
      rfl
  | error e => exact absurd hr (by simp [Except.mapError])

/-- The calls of `list` apart from the one that reads the directory. -/
def Lookup : Call → Prop
  | .realpath _ => True
  | .lstat _ => True
  | _ => False

theorem uses_failWhen {allowed : Call → Prop} (condition : Bool) (code : ErrorCode)
    (path : Option JsString) (message : JsString) :
    Async.Uses allowed (failWhen condition code path message) := by
  unfold failWhen
  split <;> trivial

theorem uses_ofExcept {α : Type} {allowed : Call → Prop} (r : Except FilesystemError α) :
    Async.Uses allowed (ofExcept r) := trivial

theorem uses_accessWorkspace (service : Service) (workspaceId : JsString) :
    Async.Uses Lookup (service.accessWorkspace workspaceId) := by
  unfold Service.accessWorkspace
  split
  · trivial
  · trivial
  · refine Async.uses_bind (uses_failWhen _ _ _ _) fun _ => Async.uses_bind
      (Async.uses_mapError (Async.uses_request trivial)) fun _ => Async.uses_bind
      (uses_failWhen _ _ _ _) fun _ => Async.uses_pure

theorem uses_resolveExistingPath (root path : JsString) :
    Async.Uses Lookup (resolveExistingPath root path) := by
  unfold resolveExistingPath
  exact Async.uses_bind (uses_failWhen _ _ _ _) fun _ => Async.uses_bind
    (Async.uses_mapError (Async.uses_request trivial)) fun _ => Async.uses_bind
    (uses_failWhen _ _ _ _) fun _ => Async.uses_pure

theorem uses_listEntries (path absolutePath : JsString) : ∀ entries : List Dirent,
    Async.Uses Lookup (listEntries path absolutePath entries)
  | [] => Async.uses_pure
  | dirent :: rest => by
      unfold listEntries readEntryMetadata
      refine Async.uses_bind ?_ fun _ => Async.uses_bind (uses_listEntries path absolutePath rest)
        fun _ => Async.uses_pure
      split
      · exact Async.uses_pure
      · exact Async.uses_bind (Async.uses_request trivial) fun _ => Async.uses_pure

/-- The loop keeps the names of the directory entries. -/
theorem names_listEntries (path absolutePath : JsString) : ∀ (entries : List Dirent)
    {trace : Trace Call Answer} {listed : List ListEntry},
    Async.Returns (listEntries path absolutePath entries) trace listed →
    listed.map ListEntry.name = entries.map Dirent.name
  | [], _, _, h => by
      obtain ⟨-, rfl⟩ := Async.returns_pure.mp h
      rfl
  | dirent :: rest, _, _, h => by
      obtain ⟨_, _, size, -, -, h⟩ := Async.returns_bind.mp h
      obtain ⟨_, _, listed, -, hrest, h⟩ := Async.returns_bind.mp h
      obtain ⟨-, rfl⟩ := Async.returns_pure.mp h
      rw [List.map_cons, List.map_cons, names_listEntries path absolutePath rest hrest]

theorem boundedOption_pos {value : Option Js.Number} {default limit : Nat} {name : String}
    {minimum maximum : Nat} (h : boundedOption value default name minimum maximum = .ok limit)
    (hdefault : minimum ≤ default) : minimum ≤ limit := by
  unfold boundedOption at h
  split at h
  · unfold boundedInteger at h
    dsimp only at h
    split at h
    · split at h
      · rename_i hbounds
        have := Except.ok.inj h
        omega
      · exact absurd h (by simp)
    · exact absurd h (by simp)
  · exact Except.ok.inj h ▸ hdefault

/-- A request that resolves returns a page of the directory entries it read. -/
theorem returns_list {service : Service} {request : ListRequest} {trace : Trace Call Answer}
    {result : ListResult} (h : Async.Returns (service.list request) trace result)
    {dir : JsString} {entries : List Dirent} (hdir : ⟨.readdir dir, .ok entries⟩ ∈ trace) :
    ∃ path cursor limit listed,
      normalizeRelativePath (request.path.getD dot) true = .ok path ∧
      cursorOption request.cursor path = .ok cursor ∧ 0 < limit ∧
      listed.map ListEntry.name = entries.map Dirent.name ∧
      result = pageOf path cursor limit (sortEntries listed) := by
  unfold Service.list at h
  obtain ⟨_, _, root, rfl, hroot, h⟩ := Async.returns_bind.mp h
  obtain ⟨_, _, path, rfl, hpath, h⟩ := Async.returns_bind.mp h
  obtain ⟨_, _, limit, rfl, hlimit, h⟩ := Async.returns_bind.mp h
  obtain ⟨_, _, cursor, rfl, hcursor, h⟩ := Async.returns_bind.mp h
  obtain ⟨_, _, absolutePath, rfl, hresolve, h⟩ := Async.returns_bind.mp h
  obtain ⟨_, _, entries', rfl, hread, h⟩ := Async.returns_bind.mp h
  obtain ⟨_, _, listed, rfl, hlisted, h⟩ := Async.returns_bind.mp h
  obtain ⟨rfl, rfl⟩ := Async.returns_pure.mp h
  obtain ⟨rfl, hpath'⟩ := returns_ofExcept.mp hpath
  obtain ⟨rfl, hlimit'⟩ := returns_ofExcept.mp hlimit
  obtain ⟨rfl, hcursor'⟩ := returns_ofExcept.mp hcursor
  obtain rfl := returns_call.mp (Async.returns_mapError.mp hread)
  -- no other call of the request reads a directory
  have hentries : entries' = entries := by
    simp only [List.nil_append, List.append_nil, List.mem_append, List.mem_singleton] at hdir
    obtain hdir | hdir | hdir | hdir := hdir
    · exact (Prog.Trace.allowed hroot (uses_accessWorkspace _ _) _ hdir).elim
    · exact (Prog.Trace.allowed hresolve (uses_resolveExistingPath _ _) _ hdir).elim
    · cases hdir
      rfl
    · exact (Prog.Trace.allowed hlisted (uses_listEntries _ _ _) _ hdir).elim
  subst hentries
  exact ⟨path, cursor, limit, listed, hpath', hcursor', boundedOption_pos hlimit' (by decide),
    names_listEntries _ _ _ hlisted, rfl⟩

/-! ## Following the cursors -/

/-- What a directory looks like to one request. -/
structure Snapshot where
  entries : List Dirent
  distinct : (entries.map Dirent.name).Nodup
  named : ∀ e ∈ entries, e.name ≠ []

def Snapshot.names (snapshot : Snapshot) : List JsString := snapshot.entries.map Dirent.name

/-- A request for a page, the calls it made and what it resolved with. -/
structure PageRequest where
  limit : Option Js.Number
  trace : Trace Call Answer
  snapshot : Snapshot
  result : ListResult

/-- The request resolves, and sees its snapshot of the directory. -/
def PageRequest.Answered (service : Service) (workspaceId : JsString) (path : Option JsString)
    (cursor : Option JsString) (p : PageRequest) : Prop :=
  Async.Returns (service.list ⟨workspaceId, path, p.limit, cursor⟩) p.trace p.result ∧
    ∃ dir, ⟨.readdir dir, .ok p.snapshot.entries⟩ ∈ p.trace

/-- Requests that follow `nextCursor`, starting with a cursor. -/
inductive Follows (service : Service) (workspaceId : JsString) (path : Option JsString) :
    Option JsString → List PageRequest → Prop
  | last {cursor p} (h : p.Answered service workspaceId path cursor) :
      Follows service workspaceId path cursor [p]
  | next {cursor p c ps} (h : p.Answered service workspaceId path cursor)
      (hc : p.result.nextCursor = some c) (hrest : Follows service workspaceId path (some c) ps) :
      Follows service workspaceId path cursor (p :: ps)

/-- A request shows a page of the sorted directory. -/
structure PageRequest.Shows (path : JsString) (p : PageRequest) (q : Page ListEntry) : Prop where
  shown : p.result.path = path
  entries : p.result.entries = q.entries
  names : (q.snapshot.map ListEntry.name).Perm p.snapshot.names
  ends : p.result.nextCursor = none ↔ q.tail = []
  cursor : ∀ c, p.result.nextCursor = some c → ∃ last ∈ q.entries.getLast?, last.name ≠ [] ∧
    c = encodeListCursor ⟨path, last.name⟩

theorem PageRequest.Answered.shows {service : Service} {workspaceId : JsString}
    {requestPath : Option JsString} {encoded : Option JsString} {p : PageRequest}
    (h : p.Answered service workspaceId requestPath encoded) {path : JsString}
    {cursor : Option ListCursor} (hpath : normalizeRelativePath (requestPath.getD dot) true = .ok path)
    (hcursor : cursorOption encoded path = .ok cursor) :
    ∃ q, Page.Cut ListEntry.key (cursor.map fun c => codePoints c.after) q ∧ p.Shows path q := by
  obtain ⟨hreturns, dir, hdir⟩ := h
  obtain ⟨path', cursor', limit, listed, hpath', hcursor', hlimit, hnames, hresult⟩ :=
    returns_list hreturns hdir
  obtain rfl : path' = path := Except.ok.inj (hpath'.symm.trans hpath)
  obtain rfl : cursor' = cursor := Except.ok.inj (hcursor'.symm.trans hcursor)
  have hsorted := pairwise_sortEntries (hnames ▸ p.snapshot.distinct)
  obtain ⟨hcut, hnext⟩ := pageOf_cut path' cursor' hlimit hsorted
  have hperm : ((sortEntries listed).map ListEntry.name).Perm p.snapshot.names := by
    rw [Snapshot.names, ← hnames]
    exact (perm_sortEntries listed).map _
  refine ⟨_, hcut, hresult ▸ rfl, hresult ▸ rfl, hperm, ?_, fun c hc => ?_⟩
  · rw [hresult, hnext]
    split <;> simp_all
  · rw [hresult, hnext] at hc
    split at hc
    · exact absurd hc (by simp)
    rename_i htail
    obtain ⟨last, hlast⟩ : ∃ last, (pageOf path' cursor' limit (sortEntries listed)).entries.getLast?
        = some last := by
      refine Option.ne_none_iff_exists'.mp fun hnone => htail (hcut.advances ?_)
      exact List.getLast?_eq_none_iff.mp hnone
    refine ⟨last, hlast, ?_, ?_⟩
    · have hmem : last ∈ sortEntries listed :=
        (mem_behind.mp (hcut.cut ▸ List.mem_append_left _ (List.mem_of_getLast? hlast))).1
      obtain ⟨e, he, hname⟩ := List.mem_map.mp (hperm.subset (List.mem_map_of_mem hmem))
      exact hname ▸ p.snapshot.named e he
    · rw [hlast] at hc
      exact (Option.some.inj hc).symm

/-- The pages that requests show. -/
theorem Follows.pages {service : Service} {workspaceId : JsString} {requestPath : Option JsString}
    {encoded : Option JsString} {ps : List PageRequest}
    (h : Follows service workspaceId requestPath encoded ps) {path : JsString}
    (hpath : normalizeRelativePath (requestPath.getD dot) true = .ok path) :
    ∀ {cursor : Option ListCursor}, cursorOption encoded path = .ok cursor →
      ∃ qs, Pages ListEntry.key (cursor.map fun c => codePoints c.after) qs ∧
        List.Forall₂ (PageRequest.Shows path) ps qs := by
  induction h with
  | last h =>
      intro cursor hcursor
      obtain ⟨q, hcut, hshows⟩ := h.shows hpath hcursor
      exact ⟨[q], .last hcut, .cons hshows .nil⟩
  | next h hc _ ih =>
      intro cursor hcursor
      obtain ⟨q, hcut, hshows⟩ := h.shows hpath hcursor
      obtain ⟨last, hlast, hname, rfl⟩ := hshows.cursor _ hc
      have hdecode : cursorOption (some (encodeListCursor ⟨path, last.name⟩)) path =
          .ok (some ⟨path, last.name⟩) := by
        rw [cursorOption, decodeListCursor_encode ⟨path, last.name⟩ hname]
        rfl
      obtain ⟨qs, hqs, hall⟩ := ih hdecode
      refine ⟨q :: qs, .next hcut hlast (fun htail => ?_) hqs, .cons hshows hall⟩
      exact absurd (hshows.ends.mpr htail) (by simp [hc])

section
variable {path : JsString} {ps : List PageRequest} {qs : List (Page ListEntry)}

theorem names_shown (h : List.Forall₂ (PageRequest.Shows path) ps qs) :
    (ps.flatMap fun p => p.result.entries.map ListEntry.name) =
      (collected qs).map ListEntry.name := by
  induction h with
  | nil => rfl
  | cons hshows _ ih =>
      rw [List.flatMap_cons, ih, hshows.entries, collected, collected, List.flatMap_cons,
        List.map_append]

theorem ended_shown (h : List.Forall₂ (PageRequest.Shows path) ps qs) :
    (∀ p ∈ ps.getLast?, p.result.nextCursor = none) ↔ ∀ q ∈ qs.getLast?, q.tail = [] := by
  induction h with
  | nil => simp
  | @cons p q ps qs hshows hrest ih =>
      cases hrest with
      | nil => simpa using hshows.ends
      | cons => simpa only [List.getLast?_cons_cons] using ih

theorem exists_shows (h : List.Forall₂ (PageRequest.Shows path) ps qs) {p : PageRequest}
    (hp : p ∈ ps) : ∃ q, p.Shows path q := by
  induction h with
  | nil => exact absurd hp List.not_mem_nil
  | cons hshows _ ih =>
      obtain rfl | hp := List.mem_cons.mp hp
      · exact ⟨_, hshows⟩
      · exact ih hp

theorem exists_shown (h : List.Forall₂ (PageRequest.Shows path) ps qs) {q : Page ListEntry}
    (hq : q ∈ qs) : ∃ p ∈ ps, p.Shows path q := by
  induction h with
  | nil => exact absurd hq List.not_mem_nil
  | cons hshows _ ih =>
      obtain rfl | hq := List.mem_cons.mp hq
      · exact ⟨_, List.mem_cons_self, hshows⟩
      · obtain ⟨p, hp, hshow⟩ := ih hq
        exact ⟨p, List.mem_cons_of_mem _ hp, hshow⟩

end

/-- Requests that follow the cursors over a directory that changes between
them: the names increase strictly, so that none comes twice; a name that is
there all the time comes once, when the pages have come past it or to the end;
every cursor is read back as the record it was written from; and over a
directory that does not change the requests come to an end with all names. -/
theorem list_pages (service : Service) (workspaceId : JsString) (requestPath : Option JsString)
    {ps : List PageRequest} (h : Follows service workspaceId requestPath none ps) :
    let names := ps.flatMap fun p => p.result.entries.map ListEntry.name
    let ended := ∀ p ∈ ps.getLast?, p.result.nextCursor = none
    names.Pairwise (fun a b => compareCodePoints a b < 0) ∧ names.Nodup ∧
    (∀ name, (∀ p ∈ ps, name ∈ p.snapshot.names) →
      ended ∨ (∃ last ∈ names, compareCodePoints name last ≤ 0) → names.count name = 1) ∧
    (∀ p ∈ ps, ∀ c, p.result.nextCursor = some c → ∃ last ∈ p.result.entries.getLast?,
      c = encodeListCursor ⟨p.result.path, last.name⟩ ∧
      decodeListCursor c p.result.path = .ok ⟨p.result.path, last.name⟩) ∧
    ∀ all : List JsString, (∀ p ∈ ps, p.snapshot.names.Perm all) →
      ps.length ≤ max 1 all.length ∧ (ended → names.Perm all) := by
  intro names ended
  obtain ⟨path, hpath⟩ : ∃ path, normalizeRelativePath (requestPath.getD dot) true = .ok path := by
    have hanswered : ∃ p : PageRequest, p.Answered service workspaceId requestPath none := by
      cases h with
      | last h => exact ⟨_, h⟩
      | next h => exact ⟨_, h⟩
    obtain ⟨p, hreturns, dir, hdir⟩ := hanswered
    obtain ⟨path, _, _, _, hpath, -⟩ := returns_list hreturns hdir
    exact ⟨path, hpath⟩
  obtain ⟨qs, hpages, hshows⟩ := h.pages hpath (show cursorOption none path = .ok none from rfl)
  have hnames : names = (collected qs).map ListEntry.name := names_shown hshows
  have hpairwise : names.Pairwise fun a b => codePoints a < codePoints b := by
    rw [hnames, List.pairwise_map]
    exact hpages.pairwise.1
  have hnodup : names.Nodup := hpairwise.imp fun {a b} hlt heq => by
    rw [heq] at hlt
    exact lt_irrefl _ hlt
  have hfound : ∀ name, (∀ p ∈ ps, name ∈ p.snapshot.names) →
      ended ∨ (∃ last ∈ names, compareCodePoints name last ≤ 0) → name ∈ names := by
    intro name hall hpast
    have hkeys : ∀ q ∈ qs, ∃ e ∈ q.snapshot, e.key = codePoints name := by
      intro q hq
      obtain ⟨p, hp, hshow⟩ := exists_shown hshows hq
      obtain ⟨e, he, rfl⟩ := List.mem_map.mp (hshow.names.symm.subset (hall p hp))
      exact ⟨e, he, rfl⟩
    have hpast' : (∀ q ∈ qs.getLast?, q.tail = []) ∨
        ∃ e ∈ collected qs, codePoints name ≤ e.key := by
      refine hpast.imp (ended_shown hshows).mp fun hlast => ?_
      obtain ⟨last, hmem, hle⟩ := hlast
      obtain ⟨e, he, rfl⟩ := List.mem_map.mp (hnames ▸ hmem)
      exact ⟨e, he, (compareCodePoints_le_iff _ _).mp hle⟩
    obtain ⟨e, he, hkey⟩ := hpages.exists_mem (fun a ha => absurd ha (by simp)) hkeys hpast'
    rw [hnames, ← codePoints_injective hkey]
    exact List.mem_map_of_mem he
  refine ⟨hpairwise.imp fun {a b} hlt => (compareCodePoints_neg_iff a b).mpr hlt, hnodup,
    fun name hall hpast => List.count_eq_one_of_mem hnodup (hfound name hall hpast), ?_, ?_⟩
  · intro p hp c hc
    obtain ⟨q, hshow⟩ := exists_shows hshows hp
    obtain ⟨last, hlast, hname, rfl⟩ := hshow.cursor c hc
    rw [hshow.entries, hshow.shown]
    exact ⟨last, hlast, rfl, decodeListCursor_encode ⟨path, last.name⟩ hname⟩
  · intro all hall
    have hperm : ∀ q ∈ qs, (q.snapshot.map ListEntry.name).Perm all := by
      intro q hq
      obtain ⟨p, hp, hshow⟩ := exists_shown hshows hq
      exact hshow.names.trans (hall p hp)
    obtain ⟨q, hq⟩ : ∃ q, q ∈ qs := by
      cases hpages with
      | last => exact ⟨_, List.mem_cons_self⟩
      | next => exact ⟨_, List.mem_cons_self⟩
    constructor
    · have hkeys : ∀ r ∈ qs, r.snapshot.map ListEntry.key = q.snapshot.map ListEntry.key := by
        intro r hr
        obtain ⟨_, hrcut⟩ := hpages.cut r hr
        obtain ⟨_, hqcut⟩ := hpages.cut q hq
        have hperm' := (((hperm r hr).trans (hperm q hq).symm).map codePoints)
        rw [List.map_map, List.map_map] at hperm'
        have hr' : (r.snapshot.map ListEntry.key).Pairwise (· < ·) :=
          List.pairwise_map.mpr hrcut.sorted
        have hq' : (q.snapshot.map ListEntry.key).Pairwise (· < ·) :=
          List.pairwise_map.mpr hqcut.sorted
        exact hperm'.eq_of_pairwise (fun a b _ _ hab hba => (lt_asymm hab hba).elim) hr' hq'
      have hle := hpages.length_le hkeys
      have hlen := (hperm q hq).length_eq
      rw [List.length_map] at hlen
      rw [hshows.length_eq]
      simpa [hlen] using hle
    · intro hended
      refine (List.perm_ext_iff_of_nodup hnodup ?_).mpr fun name => ⟨fun hname => ?_, fun hname =>
        hfound name (fun p hp => (hall p hp).symm.subset hname) (.inl hended)⟩
      · obtain ⟨p, hp, -⟩ := exists_shown hshows hq
        exact (hall p hp).nodup_iff.mp p.snapshot.distinct
      · obtain ⟨e, he, rfl⟩ := List.mem_map.mp (hnames ▸ hname)
        obtain ⟨q, hq, he⟩ := hpages.mem_snapshot he
        exact (hperm q hq).subset (List.mem_map_of_mem he)

/-- A service with one workspace. -/
def oneWorkspace : Service where
  resolveWorkspace id := .ok (if id = js "ws" then some ⟨js "/ws", .available⟩ else none)
  sha256 _ := []
  minimatch _ _ := false
  pid := js "1"

/-- The first page, of one entry, of a workspace root with the entries b and a. -/
def firstPage : PageRequest where
  limit := some (.finite .one)
  trace := [⟨.realpath (js "/ws"), .ok (js "/ws")⟩, ⟨.realpath (js "/ws"), .ok (js "/ws")⟩,
    ⟨.readdir (js "/ws"), .ok [⟨js "b", .symlink⟩, ⟨js "a", .directory⟩]⟩,
    ⟨.lstat (js "/ws/a"), .ok ⟨.directory, 0o040755, 4096⟩⟩]
  snapshot := ⟨[⟨js "b", .symlink⟩, ⟨js "a", .directory⟩], by decide, by decide⟩
  result := ⟨js ".", [⟨js "a", js "a", .directory, none⟩],
    some (encodeListCursor ⟨js ".", js "a"⟩)⟩

/-- The second page, when a is gone and A has come. -/
def secondPage : PageRequest where
  limit := some (.finite .one)
  trace := [⟨.realpath (js "/ws"), .ok (js "/ws")⟩, ⟨.realpath (js "/ws"), .ok (js "/ws")⟩,
    ⟨.readdir (js "/ws"), .ok [⟨js "A", .symlink⟩, ⟨js "b", .symlink⟩]⟩]
  snapshot := ⟨[⟨js "A", .symlink⟩, ⟨js "b", .symlink⟩], by decide, by decide⟩
  result := ⟨js ".", [⟨js "b", js "b", .symlink, none⟩], none⟩

theorem boundedOption_one : boundedOption (some (.finite .one)) defaultListLimit "limit" 1
    maxListLimit = .ok 1 := by
  decide +kernel

/-- The steps of a page of one entry of the root. -/
theorem returns_onePage {cursor : Option JsString} {after : Option ListCursor}
    {entries : List Dirent} {listed : List ListEntry} {trace : Trace Call Answer}
    (hcursor : cursorOption cursor (js ".") = .ok after)
    (hlisted : Async.Returns (listEntries (js ".") (js "/ws") entries) trace listed) :
    Async.Returns (oneWorkspace.list ⟨js "ws", none, some (.finite .one), cursor⟩)
      (⟨.realpath (js "/ws"), .ok (js "/ws")⟩ :: ⟨.realpath (js "/ws"), .ok (js "/ws")⟩ ::
        ⟨.readdir (js "/ws"), .ok entries⟩ :: trace)
      (pageOf (js ".") after 1 (sortEntries listed)) := by
  have hroot : Async.Returns (oneWorkspace.accessWorkspace (js "ws"))
      [⟨.realpath (js "/ws"), .ok (js "/ws")⟩] (js "/ws") := .call (.done _)
  have hresolve : Async.Returns (resolveExistingPath (js "/ws") (js "."))
      [⟨.realpath (js "/ws"), .ok (js "/ws")⟩] (js "/ws") := .call (.done _)
  have hread : Async.Returns ((readdir (js "/ws")).mapError (mapFilesystemError (js ".")))
      [⟨.readdir (js "/ws"), .ok entries⟩] entries := .call (.done _)
  unfold Service.list
  refine Async.returns_bind.mpr ⟨[_], _, _, rfl, hroot, ?_⟩
  refine Async.returns_bind.mpr ⟨[], _, _, rfl, returns_ofExcept.mpr ⟨rfl, rfl⟩, ?_⟩
  refine Async.returns_bind.mpr ⟨[], _, _, rfl, returns_ofExcept.mpr ⟨rfl, boundedOption_one⟩, ?_⟩
  refine Async.returns_bind.mpr ⟨[], _, _, rfl, returns_ofExcept.mpr ⟨rfl, hcursor⟩, ?_⟩
  refine Async.returns_bind.mpr ⟨[_], _, _, rfl, hresolve, ?_⟩
  refine Async.returns_bind.mpr ⟨[_], _, _, rfl, hread, ?_⟩
  exact Async.returns_bind.mpr ⟨_, _, _, (List.append_nil _).symm, hlisted,
    Async.returns_pure.mpr ⟨rfl, rfl⟩⟩

theorem firstPage_answered : firstPage.Answered oneWorkspace (js "ws") none none := by
  have hlisted : Async.Returns
      (listEntries (js ".") (js "/ws") [⟨js "b", .symlink⟩, ⟨js "a", .directory⟩])
      [⟨.lstat (js "/ws/a"), .ok ⟨.directory, 0o040755, 4096⟩⟩]
      [⟨js "b", js "b", .symlink, none⟩, ⟨js "a", js "a", .directory, none⟩] := .call (.done _)
  have hcursor : cursorOption none (js ".") = .ok none := rfl
  exact ⟨returns_onePage hcursor hlisted, js "/ws", by simp [firstPage]⟩

theorem secondPage_answered : secondPage.Answered oneWorkspace (js "ws") none
    (some (encodeListCursor ⟨js ".", js "a"⟩)) := by
  have hcursor : cursorOption (some (encodeListCursor ⟨js ".", js "a"⟩)) (js ".") =
      .ok (some ⟨js ".", js "a"⟩) := by
    rw [cursorOption, decodeListCursor_encode ⟨js ".", js "a"⟩ (by decide)]
    rfl
  have hlisted : Async.Returns
      (listEntries (js ".") (js "/ws") [⟨js "A", .symlink⟩, ⟨js "b", .symlink⟩]) []
      [⟨js "A", js "A", .symlink, none⟩, ⟨js "b", js "b", .symlink, none⟩] := .done _
  exact ⟨returns_onePage hcursor hlisted, js "/ws", by simp [secondPage]⟩

/-- Two pages of one entry, between which the directory changes. -/
theorem list_pages_two :
    let names := [firstPage, secondPage].flatMap fun p => p.result.entries.map ListEntry.name
    names.Nodup ∧ names.count (js "b") = 1 := by
  have hfollows : Follows oneWorkspace (js "ws") none none [firstPage, secondPage] :=
    .next firstPage_answered rfl (.last secondPage_answered)
  obtain ⟨-, hnodup, honce, -, -⟩ := list_pages oneWorkspace (js "ws") none hfollows
  refine ⟨hnodup, honce (js "b") (fun p hp => ?_) (.inl fun p hp => ?_)⟩
  · simp only [List.mem_cons, List.not_mem_nil, or_false] at hp
    obtain rfl | rfl := hp
    · decide
    · decide
  · obtain rfl := Option.some.inj hp
    rfl

end Benchhand.Filesystem
