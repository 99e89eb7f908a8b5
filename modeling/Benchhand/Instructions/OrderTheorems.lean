/-
Benchhand.Instructions.OrderTheorems — the order of the instructions.

Providers are sorted by precedence and id, and the documents of an answer by
source, path and digest. A service whose providers are registered in another
order, or answer in another order, asks the same and gets the same answers in
another order (`ask_alike`). So its result is the same too, unless two contents
with one digest tell the orders apart (`resolve_canonical`).
-/
import Benchhand.Instructions.Host
import Benchhand.Instructions.ResolveTheorems
import Benchhand.Process.Alike
import Benchhand.Store.Sorting
import Mathlib.Data.Prod.Lex

namespace Benchhand.Instructions

open Text Posix Process Js Store
open Filesystem (Segment codePoints_injective portable requestSegments)

/-! ## Scopes -/

theorem normalizeRelativePath_eq (input : JsString) : normalizeRelativePath input =
    if (0 : UInt16) ∈ input then
      .error (.instructions
        { code := .invalidPath, path := none, message := js "scopePath must be a NUL-free string" })
    else if isAbsolute input || win32IsAbsolute input then
      thrown .pathOutsideWorkspace input (js "absolute scope paths are not allowed")
    else if dotDot ∈ requestSegments input then
      thrown .pathOutsideWorkspace input (js "scope path traversal is not allowed")
    else if maxScopeDepth < (requestSegments input).length then
      thrown .scopeTooDeep input
        (js "instruction scope exceeds " ++ decimal maxScopeDepth ++ js " directory levels")
    else .ok (portable (requestSegments input)) := by
  unfold normalizeRelativePath portable requestSegments Filesystem.portableUnit
  simp only [apply_ite Except.ok]

/-- A scope path is accepted as plain segments. -/
theorem normalizeRelativePath_ok {input path : JsString}
    (h : normalizeRelativePath input = .ok path) :
    path = portable (requestSegments input) ∧ ∀ s ∈ requestSegments input, Segment s := by
  rw [normalizeRelativePath_eq] at h
  split at h
  · cases h
  rename_i hnul
  split at h
  · cases h
  split at h
  · cases h
  rename_i hdots
  split at h
  · cases h
  exact ⟨(Except.ok.inj h).symm, Filesystem.requestSegments_segment hnul hdots⟩

theorem inits_eq_take {α : Type} : ∀ l : List α,
    l.inits = (List.range (l.length + 1)).map fun index => l.take index
  | [] => rfl
  | a :: l => by
      rw [List.inits_cons, inits_eq_take l, List.length_cons,
        List.range_succ_eq_map (n := l.length + 1), List.map_cons, List.map_map, List.map_map]
      rfl

/-- The scopes of a path are the prefixes of its segments. -/
theorem buildScopeChain_portable {segs : List JsString} (h : ∀ s ∈ segs, Segment s) :
    buildScopeChain (portable segs) = segs.inits.map portable := by
  by_cases hnil : segs = []
  · subst hnil
    rfl
  have hplain : ∀ s ∈ segs, Plain s := fun s hs => (h s hs).toPlain
  have hpath : portable segs = joinSegments segs := if_neg hnil
  have hsplit : (joinSegments segs).splitOn slash = segs :=
    List.splitOn_intercalate _ (fun s hs => (hplain s hs).noSlash) hnil
  have htake (index : Nat) : portable (segs.take (index + 1)) =
      joinSegments (segs.take (index + 1)) := by
    rw [portable, if_neg]
    simpa using hnil
  rw [hpath, buildScopeChain, if_neg (Filesystem.joinSegments_ne_dot hplain), hsplit,
    inits_eq_take, List.range_succ_eq_map, List.map_map, List.map_cons, List.map_map]
  refine congrArg (dot :: ·) (List.map_congr_left fun index _ => ?_)
  exact (htake index).symm

/-! ## Keys -/

/-- What documents of an answer are sorted by. -/
def InstructionDocument.key (document : InstructionDocument) :
    List Nat ×ₗ List Nat ×ₗ List Nat :=
  toLex (codePoints document.sourceId,
    toLex (codePoints (document.path.getD []), codePoints document.sha256))

/-- What providers are sorted by. -/
def Provider.key (provider : Provider) : Int ×ₗ List Nat :=
  toLex (provider.rank, codePoints provider.id)

theorem byKey_documents : ByKey InstructionDocument.key fun left right =>
    compareDocumentsWithinProvider left right ≤ 0 := by
  intro left right
  have hzero (s t : JsString) : compareCodePoints s t = 0 ↔ codePoints s = codePoints t :=
    Filesystem.compareCodePoints_eq_zero_iff s t
  have hneg (s t : JsString) : compareCodePoints s t < 0 ↔ codePoints s < codePoints t :=
    Filesystem.compareCodePoints_neg_iff s t
  unfold compareDocumentsWithinProvider InstructionDocument.key
  rw [Prod.Lex.toLex_le_toLex, Prod.Lex.toLex_le_toLex]
  dsimp only
  rw [← hzero, ← hzero, ← hneg, ← hneg, ← Filesystem.compareCodePoints_le_iff]
  split
  · omega
  · split
    · omega
    · simp_all [compareCodePoints]

theorem byKey_providers : ByKey Provider.key fun left right => compareProviders left right ≤ 0 := by
  intro left right
  unfold compareProviders Provider.key
  rw [Prod.Lex.toLex_le_toLex, ← Filesystem.compareCodePoints_le_iff]
  dsimp only
  split
  · omega
  · rename_i heq
    have hrank : left.rank = right.rank := by omega
    simp [hrank, compareCodePoints]

/-! ## Accepted providers -/

/-- What `validateProviders` accepts. -/
structure Accepted (providers : List Provider) : Prop where
  valid : ∀ p ∈ providers, p.id ≠ [] ∧ (0 : UInt16) ∉ p.id ∧ isSafeInteger p.precedence = true
  distinct : (providers.map Provider.id).Nodup

theorem validateProviders_ok_iff {u : PUnit} : ∀ {ids : List JsString} {providers : List Provider},
    validateProviders ids providers = .ok u ↔
      Accepted providers ∧ ∀ p ∈ providers, p.id ∉ ids
  | ids, [] => ⟨fun _ => ⟨⟨fun _ h => absurd h List.not_mem_nil, .nil⟩,
      fun _ h => absurd h List.not_mem_nil⟩, fun _ => rfl⟩
  | ids, provider :: rest => by
      rw [validateProviders]
      split
      · rename_i hinvalid
        refine ⟨fun h => (by cases h), fun ⟨haccepted, _⟩ => ?_⟩
        obtain ⟨hid, hnul, hsafe⟩ := haccepted.valid provider List.mem_cons_self
        simp [hid, hnul, hsafe] at hinvalid
      rename_i hvalid
      split
      · rename_i hmem
        exact ⟨fun h => (by cases h), fun ⟨_, hids⟩ => absurd hmem (hids provider List.mem_cons_self)⟩
      rename_i hnotmem
      rw [validateProviders_ok_iff]
      have hvalid' : provider.id ≠ [] ∧ (0 : UInt16) ∉ provider.id ∧
          isSafeInteger provider.precedence = true := by simpa using hvalid
      constructor
      · rintro ⟨⟨hrest, hdistinct⟩, hids⟩
        refine ⟨⟨List.forall_mem_cons.mpr ⟨hvalid', hrest⟩, ?_⟩,
          List.forall_mem_cons.mpr ⟨hnotmem, fun p hp hmem => hids p hp (List.mem_cons_of_mem _ hmem)⟩⟩
        rw [List.map_cons, List.nodup_cons]
        refine ⟨fun hmem => ?_, hdistinct⟩
        obtain ⟨p, hp, heq⟩ := List.mem_map.mp hmem
        exact hids p hp (heq ▸ List.mem_cons_self)
      · rintro ⟨⟨hall, hdistinct⟩, hids⟩
        rw [List.map_cons, List.nodup_cons] at hdistinct
        refine ⟨⟨fun p hp => hall p (List.mem_cons_of_mem _ hp), hdistinct.2⟩, fun p hp hmem => ?_⟩
        obtain heq | hmem := List.mem_cons.mp hmem
        · exact hdistinct.1 (heq ▸ List.mem_map_of_mem hp)
        · exact hids p (List.mem_cons_of_mem _ hp) hmem

theorem Accepted.perm {providers providers' : List Provider} (h : Accepted providers)
    (hperm : (providers'.map fun p => (p.id, p.precedence)).Perm
      (providers.map fun p => (p.id, p.precedence))) : Accepted providers' := by
  constructor
  · intro p hp
    have hmem := hperm.mem_iff.mp (List.mem_map_of_mem (f := fun p => (p.id, p.precedence)) hp)
    obtain ⟨q, hq, heq⟩ := List.mem_map.mp hmem
    obtain ⟨hid, hprecedence⟩ := Prod.mk.inj heq
    rw [← hid, ← hprecedence]
    exact h.valid q hq
  · have hids := (hperm.map Prod.fst).nodup_iff
    rw [List.map_map, List.map_map] at hids
    exact hids.mpr h.distinct

/-- The providers of a service before they are sorted. -/
def ServiceOptions.allProviders (options : ServiceOptions) : List Provider :=
  builtins options.sha256 ++ options.providers.map OwnProvider.toProvider

/-- The service that accepted options make. -/
def ServiceOptions.service (options : ServiceOptions) : Service where
  resolveWorkspace := options.resolveWorkspace
  providers := options.allProviders.insertionSort fun left right => compareProviders left right ≤ 0
  homeDirectory := Posix.resolve [options.homeDirectory]
  sha256 := options.sha256
  parseDocument := options.parseDocument

theorem new_ok_iff {options : ServiceOptions} {service : Service} :
    Service.new options = .ok service ↔
      Accepted options.allProviders ∧ service = options.service := by
  have hiff := @validateProviders_ok_iff ⟨⟩ [] options.allProviders
  change (validateProviders [] options.allProviders).map (fun _ => options.service) = _ ↔ _
  cases hvalidate : validateProviders [] options.allProviders with
  | error e =>
      refine ⟨fun h => (by cases h), fun ⟨haccepted, _⟩ => ?_⟩
      have hok := hiff.mpr ⟨haccepted, fun _ _ => List.not_mem_nil⟩
      rw [hvalidate] at hok
      cases hok
  | ok u => exact ⟨fun h => ⟨(hiff.mp hvalidate).1, (Except.ok.inj h).symm⟩, fun h => by rw [h.2]; rfl⟩

/-- Two of the providers with one place in the order are one. -/
theorem Accepted.eq_of_key {providers : List Provider} (h : Accepted providers) :
    ∀ p ∈ providers, ∀ q ∈ providers, p.key = q.key → p = q := by
  intro p hp q hq hkey
  have hid : codePoints p.id = codePoints q.id := congrArg Prod.snd (toLex_inj.mp hkey)
  exact List.inj_on_of_nodup_map h.distinct hp hq (codePoints_injective hid)

/-! ## Another order -/

/-- A provider that answers in another order. -/
def OwnProvider.shuffled (order : JsString → ProviderContext → List Contribution → List Contribution)
    (provider : OwnProvider) : OwnProvider where
  id := provider.id
  precedence := provider.precedence
  resolveScope context := order provider.id context <$> provider.resolveScope context
  outside context := Async.uses_map (provider.outside context)

/-- The same providers in another order, and the contributions of each of
their answers in another order. -/
structure Reordering (options : ServiceOptions) where
  order : JsString → ProviderContext → List Contribution → List Contribution
  perm : ∀ id context answer, (order id context answer).Perm answer
  providers : List OwnProvider
  reordered : providers.Perm (options.providers.map (OwnProvider.shuffled order))

def Reordering.options {options : ServiceOptions} (r : Reordering options) : ServiceOptions :=
  { options with providers := r.providers }

def Asked.shuffled (order : JsString → ProviderContext → List Contribution → List Contribution)
    (asked : Asked) : Asked where
  context := asked.context
  answers := asked.answers.map fun answer => (answer.1, order answer.1 asked.context answer.2)

section
variable {W : Type} {h : Handler Call Call.Answer W}
  {order : JsString → ProviderContext → List Contribution → List Contribution}

/-- One provider and another that stands in the same place and answers in
another order. -/
structure Matches (h : Handler Call Call.Answer W)
    (order : JsString → ProviderContext → List Contribution → List Contribution)
    (provider provider' : Provider) : Prop where
  id : provider'.id = provider.id
  precedence : provider'.precedence = provider.precedence
  alike : ∀ context, Async.Alike h (fun answer answer' => answer' = order provider.id context answer)
    (askProvider provider context) (askProvider provider' context)

theorem Matches.key_eq {provider provider' : Provider} (hm : Matches h order provider provider') :
    provider.key = provider'.key := by
  rw [Provider.key, Provider.key, Provider.rank, Provider.rank, hm.id, hm.precedence]

theorem matches_shuffled (provider : OwnProvider) :
    Matches h order provider.toProvider (provider.shuffled order).toProvider where
  id := rfl
  precedence := rfl
  alike context := by
    refine Async.alike_tryCatch (Async.alike_map _ _) fun error => ?_
    cases error with
    | instructions e => exact Async.alike_throw _
    | errno e => exact Async.alike_throw _
    | error e => exact Async.alike_throw _

/-- A built-in provider has at most one contribution. -/
theorem matches_fileProvider (hperm : ∀ id context answer, (order id context answer).Perm answer)
    (sha256 : Bytes → JsString) (id : String) (precedence : Nat) (filename : String) :
    Matches h order (fileProvider sha256 id precedence filename)
      (fileProvider sha256 id precedence filename) where
  id := rfl
  precedence := rfl
  alike context := by
    refine Async.alike_tryCatch (Async.alike_bind_same fun document => Async.alike_pure ?_)
      fun error => ?_
    · cases document with
      | none => exact (List.perm_nil.mp (hperm _ _ _)).symm
      | some document => exact (List.perm_singleton.mp (hperm _ _ _)).symm
    · cases error with
      | instructions e => exact Async.alike_throw _
      | errno e => exact Async.alike_throw _
      | error e => exact Async.alike_throw _

theorem askProviders_alike (context : ProviderContext) {providers providers' : List Provider}
    (hm : List.Forall₂ (Matches h order) providers providers') :
    Async.Alike h (fun answers answers' =>
        answers' = answers.map fun answer => (answer.1, order answer.1 context answer.2))
      (askProviders context providers) (askProviders context providers') := by
  induction hm with
  | nil => exact Async.alike_pure rfl
  | @cons provider provider' providers providers' hfirst hrest ih =>
      refine (hfirst.alike context).bind fun answer answer' hanswer => ?_
      refine ih.bind fun answers answers' hanswers => Async.alike_pure ?_
      rw [hanswer, hanswers, hfirst.id]
      rfl

theorem askScopes_alike (workspace : WorkspaceRecord) (workspaceRoot : JsString)
    {providers providers' : List Provider}
    (hm : List.Forall₂ (Matches h order) providers providers') : ∀ scopes : List JsString,
    Async.Alike h (fun asked asked' => asked' = asked.map (Asked.shuffled order))
      (askScopes workspace workspaceRoot providers scopes)
      (askScopes workspace workspaceRoot providers' scopes)
  | [] => Async.alike_pure rfl
  | scope :: rest => by
      refine Async.alike_bind_same fun directory => ?_
      refine (askProviders_alike _ hm).bind fun answers answers' hanswers => ?_
      refine (askScopes_alike workspace workspaceRoot hm rest).bind fun asked asked' hasked => ?_
      refine Async.alike_pure ?_
      rw [hanswers, hasked]
      rfl

variable {options : ServiceOptions}

/-- The providers in another order are sorted alike. -/
theorem Reordering.matches (r : Reordering options) (haccepted : Accepted options.allProviders) :
    Accepted r.options.allProviders ∧
      List.Forall₂ (Matches h r.order) options.service.providers r.options.service.providers := by
  let shuffled := builtins options.sha256 ++
    (options.providers.map (OwnProvider.shuffled r.order)).map OwnProvider.toProvider
  have hperm : r.options.allProviders.Perm shuffled := (r.reordered.map _).append_left _
  have hnames : shuffled.map (fun p => (p.id, p.precedence)) =
      options.allProviders.map fun p => (p.id, p.precedence) := by
    simp only [shuffled, ServiceOptions.allProviders, List.map_append, List.map_map]
    rfl
  have hshuffled : Accepted shuffled := haccepted.perm (List.Perm.of_eq hnames)
  have hmatches : List.Forall₂ (Matches h r.order) options.allProviders shuffled := by
    refine List.rel_append ?_ ?_
    · exact .cons (matches_fileProvider r.perm _ _ _ _)
        (.cons (matches_fileProvider r.perm _ _ _ _) .nil)
    · rw [List.map_map, List.forall₂_map_left_iff, List.forall₂_map_right_iff, List.forall₂_same]
      exact fun p _ => matches_shuffled p
  refine ⟨hshuffled.perm (hperm.map _), ?_⟩
  have hsorted : r.options.service.providers = shuffled.insertionSort _ :=
    (insertionSort_eq_of_perm byKey_providers hperm.symm hshuffled.eq_of_key).symm
  rw [hsorted]
  exact forall₂_insertionSort byKey_providers (fun p q hpq => hpq.key_eq) hmatches

/-- A service that is made from another order asks the same, and is answered
the same in another order. -/
theorem ask_alike (r : Reordering options) (haccepted : Accepted options.allProviders)
    (request : InstructionsResolveRequest) :
    Async.Alike h (fun asked asked' =>
        asked' = (asked.1, asked.2.map (Asked.shuffled r.order)))
      (options.service.ask request) (r.options.service.ask request) := by
  refine Async.alike_bind_same fun workspace => ?_
  refine Async.alike_bind_same fun scopePath => ?_
  refine Async.alike_bind_same fun workspaceRoot => ?_
  refine (askScopes_alike workspace workspaceRoot (r.matches haccepted).2 _).bind
    fun asked asked' hasked => Async.alike_pure ?_
  rw [hasked]

end

/-! ## Answers in another order -/

section
variable {sha256 : Bytes → JsString}
  {order : JsString → ProviderContext → List Contribution → List Contribution}

theorem documentOf_eq_some {providerId scopePath : JsString} {contribution : Contribution}
    {document : InstructionDocument}
    (h : documentOf sha256 providerId scopePath contribution = some document) :
    checkedString contribution.sourceId = some document.sourceId ∧
      contentOf contribution.content = some document.content ∧
      pathOf contribution.path = some document.path ∧
      document.sha256 = sha256 (encodeUtf8 document.content) ∧
      document.providerId = providerId ∧ document.scopePath = scopePath := by
  rw [documentOf, normalizeContribution] at h
  cases hsource : checkedString contribution.sourceId with
  | none => rw [hsource] at h; cases h
  | some sourceId =>
      rw [hsource] at h
      cases hcontent : contentOf contribution.content with
      | none => rw [hcontent] at h; cases h
      | some content =>
          rw [hcontent] at h
          dsimp only at h
          split at h
          · cases h
          cases hpath : pathOf contribution.path with
          | none => rw [hpath] at h; cases h
          | some path =>
              rw [hpath] at h
              obtain rfl := Option.some.inj h
              exact ⟨rfl, rfl, rfl, rfl, rfl, rfl⟩

theorem ne_nil_of_checkedString {value : Value} {s : JsString}
    (h : checkedString value = some s) : s ≠ [] := by
  unfold checkedString at h
  split at h
  · split at h
    · cases h
    · rename_i hvalid
      obtain rfl := Option.some.inj h
      exact fun hnil => hvalid (.inl hnil)
  · cases h

theorem path_ne_nil {value : Value} {path : Option JsString} (h : pathOf value = some path) :
    path ≠ some [] := by
  unfold pathOf at h
  split at h
  · exact Option.some.inj h ▸ (fun h => (by cases h))
  · exact Option.some.inj h ▸ (fun h => (by cases h))
  · obtain ⟨s, hs, rfl⟩ := Option.map_eq_some_iff.mp h
    exact fun heq => ne_nil_of_checkedString hs (Option.some.inj heq)

/-- Contributions from one source and for one path that have one UTF-8
encoding have one content. -/
def NoTwins (answer : List Contribution) : Prop :=
  ∀ c ∈ answer, ∀ c' ∈ answer, ∀ content content',
    checkedString c.sourceId = checkedString c'.sourceId → pathOf c.path = pathOf c'.path →
      contentOf c.content = some content → contentOf c'.content = some content' →
        encodeUtf8 content = encodeUtf8 content' → content = content'

/-- What the sort compares of two documents of an answer. -/
theorem key_eq_iff (hsha : Function.Injective sha256) {providerId scopePath : JsString}
    {c c' : Contribution} {d d' : InstructionDocument}
    (hd : documentOf sha256 providerId scopePath c = some d)
    (hd' : documentOf sha256 providerId scopePath c' = some d') :
    d.key = d'.key ↔ d.sourceId = d'.sourceId ∧ d.path = d'.path ∧
      encodeUtf8 d.content = encodeUtf8 d'.content := by
  obtain ⟨-, -, hpath, hdigest, -, -⟩ := documentOf_eq_some hd
  obtain ⟨-, -, hpath', hdigest', -, -⟩ := documentOf_eq_some hd'
  have hgetD : d.path.getD [] = d'.path.getD [] ↔ d.path = d'.path := by
    have hne := path_ne_nil hpath
    have hne' := path_ne_nil hpath'
    cases hp : d.path with
    | none =>
        cases hp' : d'.path with
        | none => simp
        | some path' => simpa [eq_comm] using fun h => hne' (by rw [hp', h])
    | some path =>
        cases hp' : d'.path with
        | none => simpa using fun h => hne (by rw [hp, h])
        | some path' => simp
  rw [InstructionDocument.key, InstructionDocument.key, toLex_inj, Prod.mk.injEq, toLex_inj,
    Prod.mk.injEq, codePoints_injective.eq_iff, codePoints_injective.eq_iff,
    codePoints_injective.eq_iff, hdigest, hdigest', hsha.eq_iff, hgetD]

/-- The order of an answer without twins does not matter. -/
theorem answerDocuments_eq_of_perm (hsha : Function.Injective sha256) {scopePath providerId : JsString}
    {answer answer' : List Contribution} (hperm : answer'.Perm answer) (htwins : NoTwins answer) :
    answerDocuments sha256 scopePath (providerId, answer') =
      answerDocuments sha256 scopePath (providerId, answer) := by
  refine (insertionSort_eq_of_perm byKey_documents (hperm.symm.filterMap _) ?_).symm
  intro d hd d' hd' hkey
  obtain ⟨c, hc, hdocument⟩ := List.mem_filterMap.mp hd
  obtain ⟨c', hc', hdocument'⟩ := List.mem_filterMap.mp hd'
  obtain ⟨hsource, hpath, hbytes⟩ := (key_eq_iff hsha hdocument hdocument').mp hkey
  obtain ⟨hs, hcontent, hp, hdigest, hid, hscope⟩ := documentOf_eq_some hdocument
  obtain ⟨hs', hcontent', hp', hdigest', hid', hscope'⟩ := documentOf_eq_some hdocument'
  have heq : d.content = d'.content := htwins c hc c' hc' _ _ (by rw [hs, hs', hsource])
    (by rw [hp, hp', hpath]) hcontent hcontent' hbytes
  cases d
  cases d'
  simp_all

/-- With a twin in front, an answer has its document first. -/
theorem find?_answerDocuments {scopePath providerId : JsString} {c : Contribution}
    {d : InstructionDocument} (hd : documentOf sha256 providerId scopePath c = some d)
    (rest : List Contribution) :
    (answerDocuments sha256 scopePath (providerId, c :: rest)).find?
      (fun document => document.key = d.key) = some d := by
  rw [answerDocuments, List.filterMap_cons_some hd]
  exact find?_insertionSort_cons byKey_documents (fun document => decide_eq_true_iff) _

theorem answerDocuments_perm (scopePath : JsString) {providerId : JsString}
    {answer answer' : List Contribution} (hperm : answer'.Perm answer) :
    (answerDocuments sha256 scopePath (providerId, answer')).Perm
      (answerDocuments sha256 scopePath (providerId, answer)) :=
  (List.perm_insertionSort _ _).trans
    ((hperm.filterMap _).trans (List.perm_insertionSort _ _).symm)

theorem askedDocuments_shuffled (asked : List Asked) :
    askedDocuments sha256 (asked.map (Asked.shuffled order)) = asked.flatMap fun a =>
      a.answers.flatMap fun answer => answerDocuments sha256 a.context.scopePath
        (answer.1, order answer.1 a.context answer.2) := by
  rw [askedDocuments, List.flatMap_map]
  refine List.flatMap_congr fun a _ => ?_
  rw [Asked.shuffled, List.flatMap_map]

variable (hperm : ∀ id context answer, (order id context answer).Perm answer)
include hperm

theorem askedDocuments_shuffled_perm (asked : List Asked) :
    (askedDocuments sha256 (asked.map (Asked.shuffled order))).Perm
      (askedDocuments sha256 asked) := by
  rw [askedDocuments_shuffled]
  exact List.Perm.flatMap_left _ fun a _ => List.Perm.flatMap_left _ fun answer _ =>
    answerDocuments_perm _ (hperm _ _ _)

theorem totalBytes_shuffled (asked : List Asked) :
    totalBytes (askedDocuments sha256 (asked.map (Asked.shuffled order))) =
      totalBytes (askedDocuments sha256 asked) :=
  ((askedDocuments_shuffled_perm hperm asked).map _).sum_eq

theorem validAsked_shuffled (asked : List Asked) :
    ValidAsked sha256 (asked.map (Asked.shuffled order)) ↔ ValidAsked sha256 asked := by
  unfold ValidAsked ValidAnswer
  simp only [List.forall_mem_map, Asked.shuffled, (hperm _ _ _).mem_iff]

end

/-! ## The result -/

/-- A resolve succeeds. -/
def Resolves {W : Type} (h : Handler Call Call.Answer W) (w : W) (service : Service)
    (request : InstructionsResolveRequest) : Prop :=
  ∃ result w', Prog.run h (service.resolve request).run w = (.ok result, w')

/-- A result made from what the providers answered: the scopes are the prefixes
of the path, the providers stand by precedence and id, and the documents of an
answer by source, path and digest. -/
structure Canonical (options : ServiceOptions) (request : InstructionsResolveRequest)
    (result : InstructionsResolveResult) (asked : List Asked) : Prop where
  path : normalizeRelativePath (request.scopePath.getD dot) = .ok result.scopePath
  scopes : ∃ segs : List JsString, (∀ s ∈ segs, Segment s) ∧ result.scopePath = portable segs ∧
    result.scopes = segs.inits.map portable
  inScopes : asked.map (fun a => a.context.scopePath) = result.scopes
  providers : ∃ providers : List Provider, providers.Perm options.allProviders ∧
    providers.Pairwise (fun p q => p.key < q.key) ∧
      ∀ a ∈ asked, a.answers.map Prod.fst = providers.map Provider.id
  valid : ValidAsked options.sha256 asked
  documents : result.documents = askedDocuments options.sha256 asked
  sorted : ∀ a ∈ asked, ∀ answer ∈ a.answers,
    (answerDocuments options.sha256 a.context.scopePath answer).Pairwise
      fun left right => left.key ≤ right.key

section
variable {W : Type} {h : Handler Call Call.Answer W} {w w' : W}

theorem askProviders_ids {context : ProviderContext} : ∀ {providers : List Provider}
    {answers : List (JsString × List Contribution)} {w w' : W},
    Prog.run h (askProviders context providers).run w = (.ok answers, w') →
      answers.map Prod.fst = providers.map Provider.id
  | [], answers, w, w', hrun => by
      obtain ⟨rfl, rfl⟩ := run_pure_ok.mp hrun
      rfl
  | provider :: rest, answers, w, w', hrun => by
      rw [askProviders] at hrun
      simp only [Async.run_bind_ok, run_pure_ok] at hrun
      obtain ⟨contributions, v, -, others, v', hothers, rfl, rfl⟩ := hrun
      rw [List.map_cons, List.map_cons, askProviders_ids hothers]

theorem askScopes_scopes {workspace : WorkspaceRecord} {workspaceRoot : JsString}
    {providers : List Provider} : ∀ {scopes : List JsString} {asked : List Asked} {w w' : W},
    Prog.run h (askScopes workspace workspaceRoot providers scopes).run w = (.ok asked, w') →
      asked.map (fun a => a.context.scopePath) = scopes ∧
        ∀ a ∈ asked, a.answers.map Prod.fst = providers.map Provider.id
  | [], asked, w, w', hrun => by
      obtain ⟨rfl, rfl⟩ := run_pure_ok.mp hrun
      exact ⟨rfl, fun _ ha => absurd ha List.not_mem_nil⟩
  | scope :: rest, asked, w, w', hrun => by
      rw [askScopes] at hrun
      simp only [Async.run_bind_ok, run_pure_ok] at hrun
      obtain ⟨directory, v, -, answers, v', hanswers, others, v'', hothers, rfl, rfl⟩ := hrun
      obtain ⟨hscopes, hids⟩ := askScopes_scopes hothers
      exact ⟨congrArg (scope :: ·) hscopes,
        List.forall_mem_cons.mpr ⟨askProviders_ids hanswers, hids⟩⟩

theorem ask_scopes {service : Service} {request : InstructionsResolveRequest} {scopePath : JsString}
    {asked : List Asked} (hrun : Prog.run h (service.ask request).run w = (.ok (scopePath, asked), w')) :
    normalizeRelativePath (request.scopePath.getD dot) = .ok scopePath ∧
      asked.map (fun a => a.context.scopePath) = buildScopeChain scopePath ∧
        ∀ a ∈ asked, a.answers.map Prod.fst = service.providers.map Provider.id := by
  rw [Service.ask] at hrun
  simp only [Async.run_bind_ok, run_ofExcept_ok, run_pure_ok] at hrun
  obtain ⟨workspace, _, -, path, _, ⟨hpath, -⟩, root, v, -, asked', v', hasked, heq, rfl⟩ := hrun
  obtain ⟨rfl, rfl⟩ := Prod.mk.inj heq
  exact ⟨hpath, askScopes_scopes hasked⟩

theorem canonical_of_run {options : ServiceOptions} (haccepted : Accepted options.allProviders)
    {request : InstructionsResolveRequest} {result : InstructionsResolveResult}
    (hrun : Prog.run h (options.service.resolve request).run w = (.ok result, w')) :
    ∃ asked, Prog.run h (options.service.ask request).run w = (.ok (result.scopePath, asked), w') ∧
      Canonical options request result asked := by
  obtain ⟨scopePath, asked, hask, hvalid, -, rfl⟩ := resolve_run_iff.mp hrun
  obtain ⟨hpath, hscopes, hids⟩ := ask_scopes hask
  obtain ⟨hportable, hsegments⟩ := normalizeRelativePath_ok hpath
  have hperm : options.service.providers.Perm options.allProviders := List.perm_insertionSort _ _
  have hdistinct : options.service.providers.Pairwise fun p q => p ≠ q :=
    (hperm.nodup_iff.mpr (List.Nodup.of_map _ haccepted.distinct))
  refine ⟨asked, hask, hpath, ⟨_, hsegments, hportable, ?_⟩, hscopes,
    ⟨options.service.providers, hperm, ?_, hids⟩, hvalid, rfl,
    fun a _ answer _ => pairwise_insertionSort byKey_documents _⟩
  · exact hportable ▸ buildScopeChain_portable hsegments
  · refine ((pairwise_insertionSort byKey_providers _).and hdistinct).imp_of_mem ?_
    rintro p q hp hq ⟨hle, hne⟩
    exact lt_of_le_of_ne hle fun heq =>
      hne (haccepted.eq_of_key p (hperm.mem_iff.mp hp) q (hperm.mem_iff.mp hq) heq)

variable {options : ServiceOptions} {request : InstructionsResolveRequest}

theorem resolves_iff {service : Service} : Resolves h w service request ↔
    ∃ scopePath asked w', Prog.run h (service.ask request).run w = (.ok (scopePath, asked), w') ∧
      ValidAsked service.sha256 asked ∧
      totalBytes (askedDocuments service.sha256 asked) ≤ maxTotalInstructionBytes := by
  constructor
  · rintro ⟨result, w', hrun⟩
    obtain ⟨scopePath, asked, hask, hvalid, hbytes, -⟩ := resolve_run_iff.mp hrun
    exact ⟨scopePath, asked, w', hask, hvalid, hbytes⟩
  · rintro ⟨scopePath, asked, w', hask, hvalid, hbytes⟩
    exact ⟨_, w', resolve_run_iff.mpr ⟨scopePath, asked, hask, hvalid, hbytes, rfl⟩⟩

/-- Whether a resolve succeeds does not depend on the order. -/
theorem resolves_reordered (r : Reordering options) (haccepted : Accepted options.allProviders) :
    Resolves h w r.options.service request ↔ Resolves h w options.service request := by
  rw [resolves_iff, resolves_iff]
  constructor
  · rintro ⟨scopePath, asked', w', hask', hvalid, hbytes⟩
    obtain ⟨⟨path, asked⟩, heq, hask⟩ := (ask_alike r haccepted request).symm.ok hask'
    obtain ⟨rfl, rfl⟩ := Prod.mk.inj heq
    exact ⟨scopePath, asked, w', hask, (validAsked_shuffled r.perm asked).mp hvalid,
      (totalBytes_shuffled r.perm asked).symm.trans_le hbytes⟩
  · rintro ⟨scopePath, asked, w', hask, hvalid, hbytes⟩
    obtain ⟨_, rfl, hask'⟩ := (ask_alike r haccepted request).ok hask
    exact ⟨scopePath, _, w', hask', (validAsked_shuffled r.perm asked).mpr hvalid,
      (totalBytes_shuffled r.perm asked).trans_le hbytes⟩

/-- The result of a service that is made from another order. -/
theorem run_reordered (r : Reordering options) (haccepted : Accepted options.allProviders)
    {scopePath : JsString} {asked : List Asked}
    (hask : Prog.run h (options.service.ask request).run w = (.ok (scopePath, asked), w'))
    {result : InstructionsResolveResult} {w'' : W}
    (hrun : Prog.run h (r.options.service.resolve request).run w = (.ok result, w'')) :
    result = ⟨request.workspaceId, scopePath, buildScopeChain scopePath,
      askedDocuments options.sha256 (asked.map (Asked.shuffled r.order))⟩ := by
  obtain ⟨_, rfl, hask'⟩ := (ask_alike r haccepted request).ok hask
  obtain ⟨path, asked', hask'', -, -, rfl⟩ := resolve_run_iff.mp hrun
  rw [hask'] at hask''
  cases hask''
  rfl

/-- An answer can come with any of its contributions in front. -/
theorem exists_front (c : Contribution) : ∃ order : List Contribution → List Contribution,
    (∀ answer, (order answer).Perm answer) ∧ ∀ answer, c ∈ answer → ∃ rest, order answer = c :: rest := by
  have hfront (answer : List Contribution) : ∃ l : List Contribution, l.Perm answer ∧
      (c ∈ answer → ∃ rest, l = c :: rest) := by
    by_cases hc : c ∈ answer
    · obtain ⟨before, behind, rfl⟩ := List.append_of_mem hc
      exact ⟨c :: (before ++ behind), List.perm_middle.symm, fun _ => ⟨_, rfl⟩⟩
    · exact ⟨answer, .refl _, fun h => absurd h hc⟩
  choose order hperm hfront using hfront
  exact ⟨order, hperm, hfront⟩

/-- When no order of an answer is told from another, it has no twins. -/
theorem noTwins_of_same (hsha : Function.Injective options.sha256)
    (haccepted : Accepted options.allProviders) {result : InstructionsResolveResult}
    {asked : List Asked}
    (hask : Prog.run h (options.service.ask request).run w = (.ok (result.scopePath, asked), w'))
    (hvalid : ValidAsked options.sha256 asked)
    (hresolves : Resolves h w options.service request)
    (hsame : ∀ (r : Reordering options) result' w'',
      Prog.run h (r.options.service.resolve request).run w = (.ok result', w'') →
        result' = result) :
    ∀ a ∈ asked, ∀ answer ∈ a.answers, NoTwins answer.2 := by
  intro a ha answer hanswer c hc c' hc' content content' hsource hpath hcontent hcontent' hbytes
  obtain ⟨d, hd⟩ := Option.isSome_iff_exists.mp (hvalid a ha answer hanswer c hc)
  obtain ⟨d', hd'⟩ := Option.isSome_iff_exists.mp (hvalid a ha answer hanswer c' hc')
  -- each of the two comes first in some order, and the documents are the same
  have hdocuments (order : List Contribution → List Contribution)
      (hperm : ∀ answer, (order answer).Perm answer) :
      askedDocuments options.sha256 (asked.map (Asked.shuffled fun _ _ => order)) =
        result.documents := by
    let r : Reordering options :=
      ⟨fun _ _ => order, fun _ _ => hperm, _, .refl _⟩
    obtain ⟨result', w'', hrun⟩ := (resolves_reordered r haccepted).mpr hresolves
    rw [← hsame r result' w'' hrun, run_reordered r haccepted hask hrun]
  obtain ⟨order, hperm, hfront⟩ := exists_front c
  obtain ⟨order', hperm', hfront'⟩ := exists_front c'
  have heq := (hdocuments order hperm).trans (hdocuments order' hperm').symm
  rw [askedDocuments_shuffled, askedDocuments_shuffled] at heq
  have hlength (b : Asked) (x : JsString × List Contribution) :
      (answerDocuments options.sha256 b.context.scopePath (x.1, order x.2)).length =
        (answerDocuments options.sha256 b.context.scopePath (x.1, order' x.2)).length :=
    (answerDocuments_perm _ ((hperm _).trans (hperm' _).symm)).length_eq
  have hpart := eq_of_flatMap_eq (fun b _ => by
    simp only [List.length_flatMap, hlength]) heq a ha
  have hanswers := eq_of_flatMap_eq (fun x _ => hlength a x) hpart answer hanswer
  obtain ⟨rest, hrest⟩ := hfront answer.2 hc
  obtain ⟨rest', hrest'⟩ := hfront' answer.2 hc'
  obtain ⟨hs, ht, hp, -⟩ := documentOf_eq_some hd
  obtain ⟨hs', ht', hp', -⟩ := documentOf_eq_some hd'
  have hkey : d.key = d'.key := by
    refine (key_eq_iff hsha hd hd').mpr ⟨?_, ?_, ?_⟩
    · exact Option.some.inj (hs.symm.trans (hsource.trans hs'))
    · exact Option.some.inj (hp.symm.trans (hpath.trans hp'))
    · rw [Option.some.inj (ht.symm.trans hcontent), Option.some.inj (ht'.symm.trans hcontent'),
        hbytes]
  have hfirst := find?_answerDocuments hd rest
  have hfirst' := find?_answerDocuments hd' rest'
  rw [← hrest, hanswers, hrest', hkey, hfirst'] at hfirst
  rw [Option.some.inj (hcontent.symm.trans ht), Option.some.inj (hcontent'.symm.trans ht'),
    Option.some.inj hfirst]

/-- The documents of a resolve stand in one order, however the providers are
registered and whatever the order of their answers; the result is the same for
all orders exactly when no answer has two contents that the digest does not
tell apart. -/
theorem resolve_canonical (h : Handler Call Call.Answer W) (w : W) {options : ServiceOptions}
    {service : Service} (request : InstructionsResolveRequest)
    (hsha : Function.Injective options.sha256) (hservice : Service.new options = .ok service) :
    (∀ r : Reordering options, ∃ service', Service.new r.options = .ok service' ∧
      (Resolves h w service' request ↔ Resolves h w service request)) ∧
    ∀ result w', Prog.run h (service.resolve request).run w = (.ok result, w') →
      ∃ asked, Prog.run h (service.ask request).run w = (.ok (result.scopePath, asked), w') ∧
        Canonical options request result asked ∧
        ((∀ (r : Reordering options) service' result' w'', Service.new r.options = .ok service' →
            Prog.run h (service'.resolve request).run w = (.ok result', w'') → result' = result) ↔
          ∀ a ∈ asked, ∀ answer ∈ a.answers, NoTwins answer.2) := by
  obtain ⟨haccepted, rfl⟩ := new_ok_iff.mp hservice
  have hnew (r : Reordering options) : Service.new r.options = .ok r.options.service :=
    new_ok_iff.mpr ⟨(r.matches (h := h) haccepted).1, rfl⟩
  refine ⟨fun r => ⟨_, hnew r, resolves_reordered r haccepted⟩, fun result w' hrun => ?_⟩
  obtain ⟨asked, hask, hcanonical⟩ := canonical_of_run haccepted hrun
  refine ⟨asked, hask, hcanonical, fun hsame => ?_, fun htwins r service' result' w'' hnew' hrun' => ?_⟩
  · exact noTwins_of_same hsha haccepted hask hcanonical.valid ⟨result, w', hrun⟩
      fun r result' w'' hrun' => hsame r _ result' w'' (hnew r) hrun'
  · obtain ⟨-, rfl⟩ := new_ok_iff.mp hnew'
    obtain ⟨path, asked', hask', -, -, hresult⟩ := resolve_run_iff.mp hrun
    rw [hask] at hask'
    cases hask'
    rw [run_reordered r haccepted hask hrun', hresult, askedDocuments_shuffled]
    congr 1
    refine List.flatMap_congr fun a ha => List.flatMap_congr fun answer hanswer => ?_
    exact answerDocuments_eq_of_perm hsha (r.perm _ _ _) (htwins a ha answer hanswer)

end

def twin (content : JsString) : Contribution := ⟨.string (js "rules"), .string content, .undefined⟩

/-- A provider with two contents that are no Unicode text; both are encoded as
the replacement character. -/
def twinProvider : OwnProvider where
  id := js "own"
  precedence := .ofNat 300
  resolveScope _ := pure [twin [0xD800], twin [0xD801]]
  outside _ := Async.uses_pure

def twinOptions : ServiceOptions where
  resolveWorkspace _ := .ok (some ⟨js "/", .available⟩)
  providers := [twinProvider]
  homeDirectory := js "/"
  sha256 bytes := bytes.map UInt8.toUInt16
  parseDocument _ := ⟨[], .error (.error [])⟩

def emptyHost : Host where
  vol := ⟨.empty, 0⟩
  stamp _ _ := (0, 0, 0, 0)
  denied _ := none

/-- The provider answers backwards. -/
def twinReordering : Reordering twinOptions where
  order _ _ := List.reverse
  perm _ _ := List.reverse_perm
  providers := twinOptions.providers.map (OwnProvider.shuffled fun _ _ => List.reverse)
  reordered := .refl _

theorem twinOptions_injective : Function.Injective twinOptions.sha256 :=
  List.map_injective_iff.mpr fun _ _ h => UInt8.toNat_inj.mp (congrArg UInt16.toNat h)

theorem new_twinOptions : Service.new twinOptions = .ok twinOptions.service := by
  have hvalid : validateProviders [] twinOptions.allProviders = .ok ⟨⟩ := by decide +kernel
  exact congrArg (Except.map fun _ => twinOptions.service) hvalid

theorem resolve_canonical_sample : ∃ result asked,
    (value emptyHost (twinOptions.service.resolve ⟨js "w", none⟩) .empty).1 = .ok result ∧
      Canonical twinOptions ⟨js "w", none⟩ result asked := by
  have hsome : (value emptyHost (twinOptions.service.resolve ⟨js "w", none⟩) .empty).1.isOk =
      true := by decide +kernel
  cases hrun : value emptyHost (twinOptions.service.resolve ⟨js "w", none⟩) .empty with
  | mk outcome cache =>
      rw [hrun] at hsome
      cases outcome with
      | error e => cases hsome
      | ok result =>
          obtain ⟨asked, -, hcanonical, -⟩ := (resolve_canonical (answer emptyHost) .empty
            ⟨js "w", none⟩ twinOptions_injective new_twinOptions).2 result cache hrun
          exact ⟨result, asked, rfl, hcanonical⟩

theorem resolve_canonical_twins : Function.Injective twinOptions.sha256 ∧
    Service.new twinOptions = .ok twinOptions.service ∧
    Service.new twinReordering.options = .ok twinReordering.options.service ∧
    ((value emptyHost (twinOptions.service.resolve ⟨js "w", none⟩) .empty).1.toOption.map
      fun result => result.documents.map InstructionDocument.content) =
        some [[0xD800], [0xD801]] ∧
    ((value emptyHost (twinReordering.options.service.resolve ⟨js "w", none⟩)
      .empty).1.toOption.map fun result => result.documents.map InstructionDocument.content) =
        some [[0xD801], [0xD800]] := by
  have hvalid : validateProviders [] twinReordering.options.allProviders = .ok ⟨⟩ := by
    decide +kernel
  exact ⟨twinOptions_injective, new_twinOptions,
    congrArg (Except.map fun _ => twinReordering.options.service) hvalid, by decide +kernel,
    by decide +kernel⟩

end Benchhand.Instructions
