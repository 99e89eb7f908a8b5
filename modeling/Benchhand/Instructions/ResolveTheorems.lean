/-
Benchhand.Instructions.ResolveTheorems — the order of the instructions.

A resolve that succeeds is the asking of all providers in all scopes, and then
a function of their answers (`resolve_run_iff`). That function sorts the
documents of each answer, so the order of an answer does not matter, unless two
of its documents cannot be told apart by the sort and are different all the
same (`resolve_canonical`).
-/
import Benchhand.Filesystem.ListTheorems
import Benchhand.Filesystem.WorkspaceTheorems
import Benchhand.Instructions.Resolve
import Benchhand.Process.Views

namespace Benchhand.Instructions

open Text Posix Process Js

/-! ## Asking -/

/-- What the providers have answered for a scope, each under its id. -/
structure Asked where
  context : ProviderContext
  answers : List (JsString × List Contribution)

/-- All providers are asked about a scope. -/
def askProviders (context : ProviderContext) :
    List Provider → Async (List (JsString × List Contribution))
  | [] => pure []
  | provider :: rest => do
      let contributions ← askProvider provider context
      let answers ← askProviders context rest
      return (provider.id, contributions) :: answers

/-- All providers are asked about all scopes. -/
def askScopes (workspace : WorkspaceRecord) (workspaceRoot : JsString) (providers : List Provider) :
    List JsString → Async (List Asked)
  | [] => pure []
  | scope :: rest => do
      let absoluteScopePath ← resolveScopeDirectory workspaceRoot scope
      let context := { workspace, workspaceRoot, scopePath := scope, absoluteScopePath }
      let answers ← askProviders context providers
      let asked ← askScopes workspace workspaceRoot providers rest
      return ⟨context, answers⟩ :: asked

/-- A resolve that looks at no answer. -/
def Service.ask (service : Service) (request : InstructionsResolveRequest) :
    Async (JsString × List Asked) := do
  let workspace ← ofExcept (service.requireWorkspace request.workspaceId)
  let scopePath ← ofExcept (normalizeRelativePath (request.scopePath.getD dot))
  let workspaceRoot ← canonicalWorkspaceRoot workspace
  let asked ← askScopes workspace workspaceRoot service.providers (buildScopeChain scopePath)
  return (scopePath, asked)

/-! ## The documents of the answers -/

section
variable (sha256 : Bytes → JsString)

/-- The document of a contribution, if it is valid. -/
def documentOf (providerId scopePath : JsString) (contribution : Contribution) :
    Option InstructionDocument :=
  (normalizeContribution sha256 providerId scopePath contribution).toOption

/-- The documents of one answer, sorted. -/
def answerDocuments (scopePath : JsString) (answer : JsString × List Contribution) :
    List InstructionDocument :=
  (answer.2.filterMap (documentOf sha256 answer.1 scopePath)).insertionSort fun left right =>
    compareDocumentsWithinProvider left right ≤ 0

/-- The documents of all answers, scope by scope and provider by provider. -/
def askedDocuments (asked : List Asked) : List InstructionDocument :=
  asked.flatMap fun a => a.answers.flatMap (answerDocuments sha256 a.context.scopePath)

/-- Every contribution of an answer is valid. -/
def ValidAnswer (scopePath : JsString) (answer : JsString × List Contribution) : Prop :=
  ∀ contribution ∈ answer.2, (documentOf sha256 answer.1 scopePath contribution).isSome

def ValidAsked (asked : List Asked) : Prop :=
  ∀ a ∈ asked, ∀ answer ∈ a.answers, ValidAnswer sha256 a.context.scopePath answer

/-- The bytes of documents. -/
def totalBytes (documents : List InstructionDocument) : Nat :=
  (documents.map fun document => (encodeUtf8 document.content).length).sum

variable {sha256}

theorem addDocuments_ok_iff {scopePath : JsString} : ∀ {documents : List InstructionDocument}
    {resolved resolved' : Resolved}, resolved.totalBytes ≤ maxTotalInstructionBytes →
    (addDocuments scopePath documents resolved = .ok resolved' ↔
      resolved' = ⟨resolved.documents ++ documents, resolved.totalBytes + totalBytes documents⟩ ∧
        resolved'.totalBytes ≤ maxTotalInstructionBytes)
  | [], resolved, resolved', hle => by
      rw [addDocuments, List.append_nil]
      refine ⟨fun h => ?_, fun h => h.1 ▸ rfl⟩
      obtain rfl := Except.ok.inj h
      exact ⟨rfl, hle⟩
  | document :: rest, resolved, resolved', hle => by
      have htotal : totalBytes (document :: rest) =
          (encodeUtf8 document.content).length + totalBytes rest := List.sum_cons
      rw [addDocuments]
      split
      · rename_i hlarge
        refine ⟨fun h => (by cases h), fun ⟨hresolved, hle'⟩ => ?_⟩
        rw [hresolved, htotal] at hle'
        dsimp only at hle'
        omega
      · rename_i hfits
        rw [addDocuments_ok_iff (Nat.le_of_not_lt hfits), htotal]
        simp [Nat.add_assoc]

theorem mapM_documentOf_ok_iff {providerId scopePath : JsString} :
    ∀ {contributions : List Contribution} {documents : List InstructionDocument},
      contributions.mapM (normalizeContribution sha256 providerId scopePath) = .ok documents ↔
        ValidAnswer sha256 scopePath (providerId, contributions) ∧
          documents = contributions.filterMap (documentOf sha256 providerId scopePath)
  | [], documents => by
      rw [List.mapM_nil, List.filterMap_nil]
      refine ⟨fun h => ⟨fun c hc => absurd hc List.not_mem_nil, (Except.ok.inj h).symm⟩, ?_⟩
      rintro ⟨-, rfl⟩
      rfl
  | contribution :: rest, documents => by
      have ih := @mapM_documentOf_ok_iff providerId scopePath rest
      have hdocument : documentOf sha256 providerId scopePath contribution =
        (normalizeContribution sha256 providerId scopePath contribution).toOption := rfl
      unfold ValidAnswer at ih ⊢
      rw [List.mapM_cons, List.forall_mem_cons, List.filterMap_cons, hdocument]
      cases normalizeContribution sha256 providerId scopePath contribution with
      | error e => exact ⟨fun h => (by cases h), fun h => (by cases h.1.1)⟩
      | ok document =>
          change (rest.mapM (normalizeContribution sha256 providerId scopePath) >>= fun ds =>
            pure (document :: ds)) = _ ↔ _
          cases hrest : rest.mapM (normalizeContribution sha256 providerId scopePath) with
          | error e =>
              refine ⟨fun h => (by cases h), fun ⟨⟨_, hvalid⟩, _⟩ => ?_⟩
              have hok := ih.mpr ⟨hvalid, rfl⟩
              rw [hrest] at hok
              cases hok
          | ok ds =>
              obtain ⟨hvalid, rfl⟩ := ih.mp hrest
              exact ⟨fun h => ⟨⟨rfl, hvalid⟩, (Except.ok.inj h).symm⟩, fun h => by rw [h.2]; rfl⟩

theorem normalizeContributions_ok_iff {providerId scopePath : JsString}
    {contributions : List Contribution} {documents : List InstructionDocument} :
    normalizeContributions sha256 providerId scopePath contributions = .ok documents ↔
      ValidAnswer sha256 scopePath (providerId, contributions) ∧
        documents = answerDocuments sha256 scopePath (providerId, contributions) := by
  unfold normalizeContributions
  cases hmap : contributions.mapM (normalizeContribution sha256 providerId scopePath) with
  | error e =>
      refine ⟨fun h => (by cases h), fun ⟨hvalid, _⟩ => ?_⟩
      have hok := mapM_documentOf_ok_iff.mpr ⟨hvalid, rfl⟩
      rw [hmap] at hok
      cases hok
  | ok ds =>
      obtain ⟨hvalid, rfl⟩ := mapM_documentOf_ok_iff.mp hmap
      exact ⟨fun h => ⟨hvalid, (Except.ok.inj h).symm⟩, fun h => by rw [h.2]; rfl⟩

end

/-! ## A resolve is asking and sorting -/

section
variable {W : Type} {h : Handler Call Call.Answer W} {sha256 : Bytes → JsString}
  {scopePath : JsString} {w w' : W}

theorem run_ofExcept_ok {α : Type} {r : Except Thrown α} {a : α} :
    Prog.run h (ofExcept r).run w = (.ok a, w') ↔ r = .ok a ∧ w = w' := Prod.ext_iff

theorem run_pure_ok {α : Type} {a b : α} :
    Prog.run h (pure a : Async α).run w = (.ok b, w') ↔ a = b ∧ w = w' := by
  refine Prod.ext_iff.trans (and_congr_left' ?_)
  exact Except.ok.injEq a b ▸ Iff.rfl

/-- The providers of a scope. -/
theorem run_resolveProviders {context : ProviderContext} : ∀ {providers : List Provider}
    {resolved resolved' : Resolved} {w : W}, resolved.totalBytes ≤ maxTotalInstructionBytes →
    (Prog.run h (resolveProviders sha256 scopePath context providers resolved).run w =
        (.ok resolved', w') ↔
      ∃ answers, Prog.run h (askProviders context providers).run w = (.ok answers, w') ∧
        (∀ answer ∈ answers, ValidAnswer sha256 context.scopePath answer) ∧
        resolved' = ⟨resolved.documents ++
            answers.flatMap (answerDocuments sha256 context.scopePath),
          resolved.totalBytes +
            totalBytes (answers.flatMap (answerDocuments sha256 context.scopePath))⟩ ∧
        resolved'.totalBytes ≤ maxTotalInstructionBytes)
  | [], resolved, resolved', w, hle => by
      rw [resolveProviders, askProviders, run_pure_ok]
      constructor
      · rintro ⟨rfl, rfl⟩
        refine ⟨[], rfl, fun _ h => absurd h List.not_mem_nil, ?_, hle⟩
        simp [totalBytes]
      · rintro ⟨answers, hrun, -, hresolved, -⟩
        obtain ⟨rfl, rfl⟩ := run_pure_ok.mp hrun
        refine ⟨?_, rfl⟩
        rw [hresolved]
        simp [totalBytes]
  | provider :: rest, resolved, resolved', w, hle => by
      rw [resolveProviders, askProviders]
      simp only [Async.run_bind_ok, run_ofExcept_ok, run_pure_ok, normalizeContributions_ok_iff]
      constructor
      · rintro ⟨contributions, v, hasked, _, _, ⟨⟨hvalid, rfl⟩, rfl⟩, _, _, ⟨hadd, rfl⟩, hrest⟩
        obtain ⟨rfl, hle'⟩ := (addDocuments_ok_iff hle).mp hadd
        obtain ⟨answers, hanswers, hvalids, rfl, hle''⟩ := (run_resolveProviders hle').mp hrest
        refine ⟨(provider.id, contributions) :: answers,
          ⟨contributions, v, hasked, answers, w', hanswers, rfl, rfl⟩,
          List.forall_mem_cons.mpr ⟨hvalid, hvalids⟩, ?_, hle''⟩
        simp [totalBytes, Nat.add_assoc]
      · rintro ⟨_, ⟨contributions, v, hasked, answers, v', hanswers, rfl, hend⟩, hvalids, hresolved,
          hle'⟩
        rw [hend] at hanswers
        obtain ⟨hvalid, hvalids⟩ := List.forall_mem_cons.mp hvalids
        have htotal : resolved'.totalBytes = resolved.totalBytes +
            totalBytes (answerDocuments sha256 context.scopePath (provider.id, contributions)) +
            totalBytes (answers.flatMap (answerDocuments sha256 context.scopePath)) := by
          rw [hresolved]
          simp [totalBytes, Nat.add_assoc]
        have hmiddle : resolved.totalBytes +
            totalBytes (answerDocuments sha256 context.scopePath (provider.id, contributions)) ≤
              maxTotalInstructionBytes := by
          omega
        refine ⟨contributions, v, hasked, _, _, ⟨⟨hvalid, rfl⟩, rfl⟩, _, _,
          ⟨(addDocuments_ok_iff hle).mpr ⟨rfl, hmiddle⟩, rfl⟩, ?_⟩
        refine (run_resolveProviders hmiddle).mpr ⟨answers, hanswers, hvalids, ?_, hle'⟩
        rw [hresolved]
        simp [totalBytes, Nat.add_assoc]

/-- The scopes of a request. -/
theorem run_resolveScopes {workspace : WorkspaceRecord} {workspaceRoot : JsString}
    {providers : List Provider} : ∀ {scopes : List JsString} {resolved resolved' : Resolved}
    {w : W}, resolved.totalBytes ≤ maxTotalInstructionBytes →
    (Prog.run h (resolveScopes sha256 scopePath workspace workspaceRoot providers scopes
        resolved).run w = (.ok resolved', w') ↔
      ∃ asked, Prog.run h (askScopes workspace workspaceRoot providers scopes).run w =
          (.ok asked, w') ∧
        ValidAsked sha256 asked ∧
        resolved' = ⟨resolved.documents ++ askedDocuments sha256 asked,
          resolved.totalBytes + totalBytes (askedDocuments sha256 asked)⟩ ∧
        resolved'.totalBytes ≤ maxTotalInstructionBytes)
  | [], resolved, resolved', w, hle => by
      rw [resolveScopes, askScopes, run_pure_ok]
      constructor
      · rintro ⟨rfl, rfl⟩
        refine ⟨[], rfl, fun _ h => absurd h List.not_mem_nil, ?_, hle⟩
        simp [totalBytes, askedDocuments]
      · rintro ⟨asked, hrun, -, hresolved, -⟩
        obtain ⟨rfl, rfl⟩ := run_pure_ok.mp hrun
        refine ⟨?_, rfl⟩
        rw [hresolved]
        simp [totalBytes, askedDocuments]
  | scope :: rest, resolved, resolved', w, hle => by
      rw [resolveScopes, askScopes]
      simp only [Async.run_bind_ok, run_pure_ok]
      constructor
      · rintro ⟨directory, v, hdirectory, middle, v', hproviders, hrest⟩
        obtain ⟨answers, hanswers, hvalid, rfl, hle'⟩ := (run_resolveProviders hle).mp hproviders
        obtain ⟨asked, hasked, hvalids, rfl, hle''⟩ := (run_resolveScopes hle').mp hrest
        refine ⟨⟨_, answers⟩ :: asked,
          ⟨directory, v, hdirectory, answers, v', hanswers, asked, w', hasked, rfl, rfl⟩,
          List.forall_mem_cons.mpr ⟨hvalid, hvalids⟩, ?_, hle''⟩
        simp [totalBytes, askedDocuments, Nat.add_assoc]
      · rintro ⟨_, ⟨directory, v, hdirectory, answers, v', hanswers, asked, v'', hasked, rfl, hend⟩,
          hvalids, hresolved, hle'⟩
        rw [hend] at hasked
        obtain ⟨hvalid, hvalids⟩ := List.forall_mem_cons.mp hvalids
        have htotal : resolved'.totalBytes = resolved.totalBytes +
            totalBytes (answers.flatMap (answerDocuments sha256 scope)) +
            totalBytes (askedDocuments sha256 asked) := by
          rw [hresolved]
          simp [totalBytes, askedDocuments, Nat.add_assoc]
        have hmiddle : resolved.totalBytes +
            totalBytes (answers.flatMap (answerDocuments sha256 scope)) ≤
              maxTotalInstructionBytes := by
          omega
        refine ⟨directory, v, hdirectory, _, v',
          (run_resolveProviders hle).mpr ⟨answers, hanswers, hvalid, rfl, hmiddle⟩, ?_⟩
        refine (run_resolveScopes hmiddle).mpr ⟨asked, hasked, hvalids, ?_, hle'⟩
        rw [hresolved]
        simp [totalBytes, askedDocuments, Nat.add_assoc]

/-- A resolve succeeds when all providers answer, all their contributions are
valid and the documents are not too large. -/
theorem resolve_run_iff {service : Service} {request : InstructionsResolveRequest}
    {result : InstructionsResolveResult} :
    Prog.run h (service.resolve request).run w = (.ok result, w') ↔
      ∃ scopePath asked, Prog.run h (service.ask request).run w = (.ok (scopePath, asked), w') ∧
        ValidAsked service.sha256 asked ∧
        totalBytes (askedDocuments service.sha256 asked) ≤ maxTotalInstructionBytes ∧
        result = ⟨request.workspaceId, scopePath, buildScopeChain scopePath,
          askedDocuments service.sha256 asked⟩ := by
  unfold Service.resolve Service.ask
  simp only [Async.run_bind_ok, run_ofExcept_ok, run_pure_ok]
  constructor
  · rintro ⟨workspace, _, ⟨hworkspace, rfl⟩, path, _, ⟨hpath, rfl⟩, root, v, hroot, resolved, _,
      hscopes, rfl, rfl⟩
    obtain ⟨asked, hasked, hvalid, rfl, hle⟩ := (run_resolveScopes (Nat.zero_le _)).mp hscopes
    dsimp only at hle
    rw [Nat.zero_add] at hle
    exact ⟨path, asked, ⟨workspace, w, ⟨hworkspace, rfl⟩, path, w, ⟨hpath, rfl⟩, root, v, hroot,
      asked, _, hasked, rfl, rfl⟩, hvalid, hle, rfl⟩
  · rintro ⟨_, _, ⟨workspace, _, ⟨hworkspace, rfl⟩, path, _, ⟨hpath, rfl⟩, root, v, hroot, asked, _,
      hasked, heq, rfl⟩, hvalid, hle, rfl⟩
    obtain ⟨rfl, rfl⟩ := Prod.ext_iff.mp heq
    refine ⟨workspace, w, ⟨hworkspace, rfl⟩, path, w, ⟨hpath, rfl⟩, root, v, hroot,
      ⟨askedDocuments service.sha256 asked, 0 + totalBytes (askedDocuments service.sha256 asked)⟩, _,
      ?_, rfl, rfl⟩
    exact (run_resolveScopes (Nat.zero_le _)).mpr
      ⟨asked, hasked, hvalid, rfl, by rwa [Nat.zero_add]⟩

end

end Benchhand.Instructions
