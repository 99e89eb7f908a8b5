/-
Benchhand.Instructions.UntornTheorems — what a resolve returns while files
change.

The documents of the built-in providers are read one after the other, each as
`gives_readInstructionFile` says, while other resolves run and the outside
changes the files. So each of them has the content of a version that its file
had during the call (`resolve_untorn`).
-/
import Benchhand.Instructions.StableReadTheorems

namespace Benchhand.Instructions

open Text Posix Process Store

section
variable {sha256 : Bytes → JsString} {α : Type} {w : World}

/-! ## Scopes -/

theorem lasting_since {Q : α → Host → Prop} {began : Nat} :
    Lasting (fun (a : α) t => Since t began (Q a)) := fun _ _ _ ht h => h.later ht

theorem since_of_answer {a : α} {t : Timeline Host} {began : Nat} {Q : α → Host → Prop}
    (hbegan : began ≤ w.timeline.present)
    (h : ∃ n host, w.timeline.present ≤ n ∧ t.at? n = some host ∧ Q a host) : Since t began (Q a) := by
  obtain ⟨n, host, hn, hhost, hQ⟩ := h
  exact ⟨n, host, hbegan.trans hn, hhost, hQ⟩

theorem gives_canonicalWorkspaceRoot {workspace : WorkspaceRecord} {began : Nat}
    (hbegan : began ≤ w.timeline.present) : Gives sha256 (canonicalWorkspaceRoot workspace)
      (fun root t => Since t began fun host => host.realPath workspace.canonicalPath = some root)
      w := by
  refine gives_tryCatch ((gives_realpath _).mono fun root t h => ?_) ?_ fun _ _ => gives_fail
  · exact since_of_answer (Q := fun root host => host.realPath workspace.canonicalPath = some root)
      hbegan h
  · exact lasting_since

theorem gives_resolveScopeDirectory {root scope : JsString} {began : Nat}
    (hbegan : began ≤ w.timeline.present) : Gives sha256 (resolveScopeDirectory root scope)
      (fun directory t => Since t began fun host =>
        host.realPath (scopeCandidate root scope) = some directory) w := by
  unfold resolveScopeDirectory
  refine gives_bind gives_failWhen fun _ w₁ h₁ _ _ _ => ?_
  have hreal : Gives sha256 (tryCatch (realpath (scopeCandidate root scope)) (scopeFailure scope))
      (fun directory t => Since t began fun host =>
        host.realPath (scopeCandidate root scope) = some directory) w₁ := by
    refine gives_tryCatch ((gives_realpath _).mono fun directory t h => ?_) lasting_since
      fun e w' => ?_
    · exact since_of_answer
        (Q := fun directory host => host.realPath (scopeCandidate root scope) = some directory)
        (hbegan.trans h₁.present) h
    · unfold scopeFailure
      split
      · exact gives_fail
      · exact gives_fail
  refine gives_bind hreal fun directory w₂ h₂ _ _ hdirectory => ?_
  refine gives_bind gives_failWhen fun _ w₃ h₃ _ _ _ => ?_
  refine gives_bind (P := fun _ _ => True) (gives_tryCatch ((gives_stat _).mono
    fun _ _ _ => trivial) (fun _ _ _ _ _ => trivial) fun _ _ => gives_fail) fun _ w₄ h₄ _ _ _ => ?_
  refine gives_bind gives_failWhen fun _ w₅ h₅ _ _ _ => gives_pure fun t ht => ?_
  exact hdirectory.later (h₃.trans (h₄.trans (h₅.trans ht)))

/-! ## Providers -/

/-- What the built-in providers contribute: the content of their file, as a
version of it had it. A provider of another name contributes what it likes. -/
def Provider.Genuine (sha256 : Bytes → JsString) (provider : Provider) : Prop :=
  ∀ context w, Gives sha256 (provider.resolveScope context)
    (fun contributions t => ∀ c ∈ contributions, ∀ file ∈ builtinFiles, provider.id = file.1 →
      ∃ content, c.content = .string content ∧
        c.path = .string (portableJoin context.scopePath file.2) ∧
        Showed w.timeline.present context.workspaceRoot (join context.absoluteScopePath file.2)
          file.2 content t) w

theorem genuine_fileProvider (hsha : Function.Injective sha256) {id : String} {precedence : Nat}
    {filename : String} (hfile : ∀ file ∈ builtinFiles, js id = file.1 → file.2 = js filename) :
    (fileProvider sha256 id precedence filename).Genuine sha256 := by
  intro context w
  refine gives_bind (gives_readInstructionFile hsha context (js filename))
    fun document w' _ _ _ hdocument => gives_pure fun t ht c hc file hmem hid => ?_
  obtain ⟨entry, hentry, rfl⟩ := List.mem_map.mp hc
  rw [hfile file hmem hid]
  exact ⟨entry.content, rfl, rfl, (hdocument entry (Option.mem_toList.mp hentry)).later ht⟩

theorem genuine_own {provider : OwnProvider} (h : ∀ file ∈ builtinFiles, provider.id ≠ file.1) :
    provider.toProvider.Genuine sha256 := fun context _ =>
  (gives_of_uses (provider.outside context)).mono fun _ _ _ _ _ file hmem hid =>
    absurd hid (h file hmem)

theorem genuine_of_accepted {options : ServiceOptions}
    (hsha : Function.Injective options.sha256) (haccepted : Accepted options.allProviders) :
    ∀ provider ∈ options.service.providers, provider.Genuine options.sha256 := by
  intro provider hprovider
  have hmem : provider ∈ builtins options.sha256 ++ options.providers.map OwnProvider.toProvider :=
    (List.perm_insertionSort _ _).mem_iff.mp hprovider
  obtain hbuiltin | hown := List.mem_append.mp hmem
  · obtain rfl | hbuiltin := List.mem_cons.mp hbuiltin
    · exact genuine_fileProvider hsha (by decide)
    · obtain rfl := List.mem_singleton.mp hbuiltin
      exact genuine_fileProvider hsha (by decide)
  · obtain ⟨own, -, rfl⟩ := List.mem_map.mp hown
    refine genuine_own fun file hfile hid => ?_
    have hdistinct := haccepted.distinct
    rw [ServiceOptions.allProviders, List.map_append, List.nodup_append] at hdistinct
    refine hdistinct.2.2 file.1 ?_ own.id ?_ hid.symm
    · have hids : (builtins options.sha256).map Provider.id = builtinFiles.map Prod.fst := rfl
      exact hids ▸ List.mem_map_of_mem hfile
    · exact List.mem_map_of_mem (f := Provider.id) hown

/-! ## Documents -/

/-- A document of a built-in provider is read from a version. -/
def Genuine (service : Service) (visit : Visit) (document : InstructionDocument)
    (t : Timeline Host) : Prop :=
  ∀ file ∈ builtinFiles, document.providerId = file.1 →
    ∃ version, ReadFrom service visit t file.2 document version

theorem Genuine.later {service : Service} {visit : Visit} {document : InstructionDocument}
    {t t' : Timeline Host} (ht : t.Before t') (h : Genuine service visit document t) :
    Genuine service visit document t' := by
  intro file hfile hid
  obtain ⟨version, hread⟩ := h file hfile hid
  obtain ⟨workspace, root, directory, hworkspace, hroot, hdirectory, hshown⟩ := hread.during
  exact ⟨version, hread.path, hread.digest, hread.size, hread.decoded, workspace, root, directory, hworkspace,
    hroot.later ht, hdirectory.later ht, hshown.later ht⟩

/-- The context of a provider in a resolve. -/
structure InScope (service : Service) (visit : Visit) (context : ProviderContext)
    (t : Timeline Host) : Prop where
  workspace : service.requireWorkspace visit.request.workspaceId = .ok context.workspace
  root : Since t visit.began fun host =>
    host.realPath context.workspace.canonicalPath = some context.workspaceRoot
  directory : Since t visit.began fun host =>
    host.realPath (scopeCandidate context.workspaceRoot context.scopePath) =
      some context.absoluteScopePath

theorem InScope.later {service : Service} {visit : Visit} {context : ProviderContext}
    {t t' : Timeline Host} (h : InScope service visit context t) (ht : t.Before t') :
    InScope service visit context t' :=
  ⟨h.workspace, h.root.later ht, h.directory.later ht⟩

theorem readFrom_of_showed {service : Service} {visit : Visit} {context : ProviderContext}
    {t : Timeline Host} (hscope : InScope service visit context t) {filename : JsString}
    {document : InstructionDocument} (hscopePath : document.scopePath = context.scopePath)
    (hpath : document.path = some (portableJoin context.scopePath filename))
    (hdigest : document.sha256 = service.sha256 (encodeUtf8 document.content)) {began : Nat}
    (hbegan : visit.began ≤ began)
    (h : Showed began context.workspaceRoot (join context.absoluteScopePath filename) filename
      document.content t) :
    ∃ version, ReadFrom service visit t filename document version := by
  obtain ⟨n, host, realPath, version, hn, hhost, hshows, hsize, hdecode⟩ := h
  obtain ⟨workspace, root, scopePath, directory⟩ := context
  subst hscopePath
  refine ⟨version, hpath, hdigest, hsize, hdecode, workspace, root, directory, hscope.workspace,
    hscope.root, hscope.directory, n, host, hbegan.trans hn, hhost, realPath, hshows,
    ⟨realPath, version.fingerprint, document.content, service.sha256 version.bytes⟩, rfl, ?_⟩
  exact fresh_eq hshows hsize hdecode

/-- The documents of the contributions of a provider. -/
theorem genuine_of_contributions {service : Service} {visit : Visit} {context : ProviderContext}
    {provider : Provider} {t : Timeline Host} (hscope : InScope service visit context t)
    {contributions : List Contribution} {began : Nat} (hbegan : visit.began ≤ began)
    (h : ∀ c ∈ contributions, ∀ file ∈ builtinFiles, provider.id = file.1 →
      ∃ content, c.content = .string content ∧
        c.path = .string (portableJoin context.scopePath file.2) ∧
        Showed began context.workspaceRoot (join context.absoluteScopePath file.2) file.2 content t)
    {documents : List InstructionDocument}
    (hdocuments : normalizeContributions service.sha256 provider.id context.scopePath
      contributions = .ok documents) : ∀ document ∈ documents, Genuine service visit document t := by
  intro document hdocument file hfile hid
  obtain ⟨-, rfl⟩ := normalizeContributions_ok_iff.mp hdocuments
  have hmem := (List.perm_insertionSort _ _).mem_iff.mp hdocument
  obtain ⟨c, hc, hdocumentOf⟩ := List.mem_filterMap.mp hmem
  obtain ⟨-, hcontent, hpath, hdigest, hprovider, hscopePath⟩ := documentOf_eq_some hdocumentOf
  obtain ⟨content, hc', hpath', hshowed⟩ := h c hc file hfile (hprovider.symm.trans hid)
  rw [hc', contentOf] at hcontent
  split at hcontent
  · cases hcontent
  obtain rfl := Option.some.inj hcontent
  rw [hpath'] at hpath
  obtain ⟨path, hchecked, hsome⟩ := Option.map_eq_some_iff.mp hpath
  rw [checkedString] at hchecked
  split at hchecked
  · cases hchecked
  obtain rfl := Option.some.inj hchecked
  exact readFrom_of_showed hscope hscopePath hsome.symm hdigest hbegan hshowed

/-- The documents so far. -/
def AllGenuine (service : Service) (visit : Visit) (resolved : Resolved) (t : Timeline Host) : Prop :=
  ∀ document ∈ resolved.documents, Genuine service visit document t

theorem AllGenuine.later {service : Service} {visit : Visit} {resolved : Resolved}
    {t t' : Timeline Host} (ht : t.Before t') (h : AllGenuine service visit resolved t) :
    AllGenuine service visit resolved t' := fun document hdocument =>
  (h document hdocument).later ht

theorem addDocuments_documents {scopePath : JsString} : ∀ {documents : List InstructionDocument}
    {resolved resolved' : Resolved}, addDocuments scopePath documents resolved = .ok resolved' →
      resolved'.documents = resolved.documents ++ documents
  | [], resolved, resolved', h => by
      rw [addDocuments] at h
      rw [← Except.ok.inj h, List.append_nil]
  | document :: rest, resolved, resolved', h => by
      rw [addDocuments] at h
      split at h
      · cases h
      · rw [addDocuments_documents h]
        exact List.append_assoc _ [document] rest

theorem gives_askProvider {provider : Provider} {context : ProviderContext}
    {P : List Contribution → Timeline Host → Prop} (hP : Lasting P)
    (h : Gives sha256 (provider.resolveScope context) P w) :
    Gives sha256 (askProvider provider context) P w := by
  refine gives_tryCatch h hP fun e w' => ?_
  cases e with
  | instructions e => exact gives_throw _
  | errno e => exact gives_fail
  | error e => exact gives_fail

theorem gives_resolveProviders {service : Service} {visit : Visit} {scopePath : JsString}
    {context : ProviderContext} : ∀ {providers : List Provider} {resolved : Resolved} {w : World},
    (∀ provider ∈ providers, provider.Genuine service.sha256) → visit.began ≤ w.timeline.present →
      InScope service visit context w.timeline → AllGenuine service visit resolved w.timeline →
        Gives service.sha256 (resolveProviders service.sha256 scopePath context providers resolved)
          (AllGenuine service visit) w
  | [], resolved, w, _, _, _, hresolved => gives_pure fun t ht => hresolved.later ht
  | provider :: rest, resolved, w, hproviders, hbegan, hscope, hresolved => by
      obtain ⟨hprovider, hrest⟩ := List.forall_mem_cons.mp hproviders
      rw [resolveProviders]
      refine gives_bind (gives_askProvider ?_ (hprovider context w))
        fun contributions w₁ h₁ _ _ hcontributions => ?_
      · intro contributions t t' ht h c hc file hfile hid
        obtain ⟨content, hcontent, hpath, hshowed⟩ := h c hc file hfile hid
        exact ⟨content, hcontent, hpath, hshowed.later ht⟩
      refine gives_bind (P := fun documents t => ∀ document ∈ documents,
        Genuine service visit document t) (gives_ofExcept fun documents t ht hok => ?_)
        fun documents w₂ h₂ _ _ hdocuments => ?_
      · have hnow := genuine_of_contributions (hscope.later h₁) hbegan hcontributions hok
        exact fun document hdocument => (hnow document hdocument).later ht
      refine gives_bind (P := fun resolved' _ =>
        resolved'.documents = resolved.documents ++ documents)
        (gives_ofExcept fun resolved' _ _ hok => addDocuments_documents hok)
        fun resolved' w₃ h₃ _ _ hadded => ?_
      refine gives_resolveProviders hrest ?_ (hscope.later (h₁.trans (h₂.trans h₃))) ?_
      · exact hbegan.trans (h₁.trans (h₂.trans h₃)).present
      · intro document hdocument
        rw [hadded] at hdocument
        obtain hold | hnew := List.mem_append.mp hdocument
        · exact (hresolved document hold).later (h₁.trans (h₂.trans h₃))
        · exact (hdocuments document hnew).later h₃

theorem gives_resolveScopes {service : Service} {visit : Visit} {scopePath : JsString}
    {workspace : WorkspaceRecord} {workspaceRoot : JsString} {providers : List Provider}
    (hproviders : ∀ provider ∈ providers, provider.Genuine service.sha256)
    (hworkspace : service.requireWorkspace visit.request.workspaceId = .ok workspace) :
    ∀ {scopes : List JsString} {resolved : Resolved} {w : World},
      visit.began ≤ w.timeline.present →
      (Since w.timeline visit.began fun host =>
        host.realPath workspace.canonicalPath = some workspaceRoot) →
      AllGenuine service visit resolved w.timeline →
        Gives service.sha256 (resolveScopes service.sha256 scopePath workspace workspaceRoot providers scopes resolved)
          (AllGenuine service visit) w
  | [], resolved, w, _, _, hresolved => gives_pure fun t ht => hresolved.later ht
  | scope :: rest, resolved, w, hbegan, hroot, hresolved => by
      rw [resolveScopes]
      refine gives_bind (gives_resolveScopeDirectory hbegan)
        fun directory w₁ h₁ _ _ hdirectory => ?_
      refine gives_bind (gives_resolveProviders hproviders (hbegan.trans h₁.present)
        ⟨hworkspace, hroot.later h₁, hdirectory⟩ (hresolved.later h₁))
        fun resolved' w₂ h₂ _ _ hresolved' => ?_
      exact gives_resolveScopes hproviders hworkspace (hbegan.trans (h₁.trans h₂).present)
        (hroot.later (h₁.trans h₂)) hresolved'

/-- A resolve, from the moment it begins. -/
theorem gives_resolve {options : ServiceOptions} (hsha : Function.Injective options.sha256)
    (haccepted : Accepted options.allProviders) {visit : Visit} (hbegins : Begins visit w) :
    Gives options.sha256 (options.service.resolve visit.request)
      (fun result t => ∀ document ∈ result.documents, Genuine options.service visit document t)
      w := by
  have hbegan : visit.began ≤ w.timeline.present := hbegins.le
  unfold Service.resolve
  refine gives_bind (gives_ofExcept (P := fun workspace _ =>
    options.service.requireWorkspace visit.request.workspaceId = .ok workspace)
    fun _ _ _ h => h) fun workspace w₁ h₁ _ _ hworkspace => ?_
  refine gives_bind (P := fun _ _ => True) (gives_ofExcept fun _ _ _ _ => trivial)
    fun scopePath w₂ h₂ _ _ _ => ?_
  refine gives_bind (gives_canonicalWorkspaceRoot (hbegan.trans (h₁.trans h₂).present))
    fun root w₃ h₃ _ _ hroot => ?_
  refine gives_bind (gives_resolveScopes (genuine_of_accepted hsha haccepted) hworkspace
    (hbegan.trans (h₁.trans (h₂.trans h₃)).present) hroot fun _ h => absurd h List.not_mem_nil)
    fun resolved w₄ _ _ _ hresolved => gives_pure fun t ht => hresolved.later ht

end

/-! ## Histories -/

/-- A history of a new service in which the last step is the last call of a
resolve. -/
structure Returning (service : Service) (host : Host) (actions : List (Pool.Action Visit Turn))
    (i : Nat) (turn : Turn) (visit : Visit) (timeline : Timeline Host)
    (result : InstructionsResolveResult) : Prop where
  history : Meets (Pool.step service.program happen) HistoryStep ⟨World.start host, []⟩
    (actions ++ [.call i turn])
  running : ∃ thread, (runFrom (Pool.step service.program happen) ⟨World.start host, []⟩
    actions).threads[i]? = some thread ∧ thread.request = visit ∧ thread.rest.result? = none
  returns : ∃ thread, (runFrom (Pool.step service.program happen) ⟨World.start host, []⟩
    (actions ++ [.call i turn])).threads[i]? = some thread ∧
      thread.rest.result? = some (.ok result)
  now : timeline = (runFrom (Pool.step service.program happen) ⟨World.start host, []⟩
    (actions ++ [.call i turn])).world.timeline

/-- What every resolve of a history ends with. -/
def Outcome (service : Service) (visit : Visit)
    (outcome : Except Thrown InstructionsResolveResult) (t : Timeline Host) : Prop :=
  match outcome with
  | .ok result => ∀ document ∈ result.documents, Genuine service visit document t
  | .error _ => True

theorem goodCache_empty (sha256 : Bytes → JsString) : GoodCache sha256 .empty := by
  intro candidate entry h
  rw [Table.find?_empty] at h
  cases h

/-- The induction over a history. -/
theorem sound_history {options : ServiceOptions} (hsha : Function.Injective options.sha256)
    (haccepted : Accepted options.allProviders) (host : Host)
    (actions : List (Pool.Action Visit Turn))
    (hmeets : Meets (Pool.step options.service.program happen) HistoryStep
      ⟨World.start host, []⟩ actions) :
    Pool.Sound (historyRules options.sha256) (fun _ _ _ => Possible)
      (fun visit _ outcome w => Outcome options.service visit outcome w.timeline)
      (runFrom (Pool.step options.service.program happen) ⟨World.start host, []⟩ actions) := by
  have hprogram : ∀ visit w, Begins visit w → (historyRules options.sha256).inv w →
      (options.service.program visit).Safe (historyRules options.sha256) (fun _ _ => Possible)
        (fun _ outcome w => Outcome options.service visit outcome w.timeline) [] w := by
    refine fun visit w hbegins _ => Prog.Safe.mono (fun _ outcome _ _ houtcome => ?_)
      ((gives_resolve hsha haccepted hbegins).safe [])
    cases outcome with
    | ok result => exact houtcome
    | error e => trivial
  refine Pool.Sound.run (fun _ _ _ _ h => h) hprogram actions hmeets ⟨?_, fun i t ht => ?_⟩
  · exact ⟨Timeline.marked_start host, goodCache_empty options.sha256⟩
  · cases ht

theorem untorn {options : ServiceOptions} {service : Service}
    (hsha : Function.Injective options.sha256) (hservice : Service.new options = .ok service)
    {host : Host} {actions : List (Pool.Action Visit Turn)} {i : Nat} {turn : Turn}
    {visit : Visit} {timeline : Timeline Host} {result : InstructionsResolveResult}
    (h : Returning service host actions i turn visit timeline result) :
    ∀ document ∈ result.documents, Genuine service visit document timeline := by
  obtain ⟨haccepted, rfl⟩ := new_ok_iff.mp hservice
  have hsound := sound_history hsha haccepted host _ h.history
  obtain ⟨thread, hthread, hvisit, hrunning⟩ := h.running
  obtain ⟨thread', hthread', hreturns⟩ := h.returns
  have hrequest : thread'.request = visit := by
    rw [runFrom_append, runFrom_cons, runFrom_nil] at hthread'
    cases Pool.step_thread hthread' with
    | other hsame hor =>
        rw [hthread] at hsame
        rw [← Option.some.inj hsame, hvisit]
    | called hcalled hi c next hrest ht =>
        rw [hthread] at hcalled
        obtain rfl := Option.some.inj hcalled
        rw [ht, hvisit]
  have hdone : thread'.rest = .done (.ok result) := by
    cases hrest : thread'.rest with
    | call c next =>
        rw [hrest] at hreturns
        cases hreturns
    | done outcome =>
        rw [hrest] at hreturns
        exact congrArg Prog.done (Option.some.inj hreturns)
  have hended := hsound.ended hthread' hdone
  rw [hrequest, ← h.now] at hended
  exact hended

/-- The content that a resolve returns for an instruction file is the decoded
content of a version which the file had, complete, at some moment of the call;
a service with an empty cache could have returned the same. -/
theorem resolve_untorn {options : ServiceOptions} {service : Service}
    (hsha : Function.Injective options.sha256) (hservice : Service.new options = .ok service)
    {host : Host} {actions : List (Pool.Action Visit Turn)} {i : Nat} {turn : Turn}
    {visit : Visit} {timeline : Timeline Host} {result : InstructionsResolveResult}
    (h : Returning service host actions i turn visit timeline result) :
    ∀ document ∈ result.documents, ∀ file ∈ builtinFiles, document.providerId = file.1 →
      ∃ version, ReadFrom service visit timeline file.2 document version :=
  untorn hsha hservice h

/-! ## A file that changes while it is read -/

namespace Sample

def options : ServiceOptions where
  resolveWorkspace _ := .ok (some ⟨js "/", .available⟩)
  providers := []
  homeDirectory := js "/"
  sha256 bytes := bytes.map UInt8.toUInt16
  parseDocument _ := ⟨[], .error (.error [])⟩

/-- A workspace with an `AGENTS.md` that was written at a time. -/
def host (bytes : Bytes) (mtimeNs : Int) : Host where
  vol := ⟨Table.empty.put [scalars (js "AGENTS.md")] (.file bytes 0o644), 0⟩
  stamp _ _ := (1, 2, mtimeNs, 3)
  denied _ := none

/-- Nothing happens besides the call. -/
def quiet : Turn := ⟨[], .error (Reason.ENOENT.errno "read" [])⟩

def visit : Visit := ⟨⟨js "w", none⟩, 0⟩

/-- The file is written again while it is read, and the read has a byte of each
version. -/
def rewrite : Turn := ⟨[host [99, 100, 101] 8], .ok [97, 100]⟩

def actions : List (Pool.Action Visit Turn) :=
  .start visit :: (List.replicate 10 (.call 0 quiet) ++
    .call 0 rewrite :: List.replicate 8 (.call 0 quiet))

theorem options_injective : Function.Injective options.sha256 :=
  List.map_injective_iff.mpr fun _ _ h => UInt8.toNat_inj.mp (congrArg UInt16.toNat h)

theorem new_options : Service.new options = .ok options.service := by
  have hvalid : validateProviders [] options.allProviders = .ok ⟨⟩ := by decide +kernel
  exact congrArg (Except.map fun _ => options.service) hvalid

section
variable {program : Visit → Prog Call Call.Answer (Except Thrown InstructionsResolveResult)}
  {i : Nat}

theorem meets_quiet : ∀ (n : Nat) (s : Running),
    Meets (Pool.step program happen) HistoryStep s (List.replicate n (.call i quiet))
  | 0, _ => trivial
  | n + 1, _ => ⟨fun _ _ _ _ _ => trivial, meets_quiet n _⟩

theorem timeline_quiet : ∀ (n : Nat) (s : Running),
    (runFrom (Pool.step program happen) s
      (List.replicate n (.call i quiet))).world.timeline = s.world.timeline
  | 0, _ => rfl
  | n + 1, s => by
      rw [List.replicate_succ, runFrom_cons, timeline_quiet n]
      obtain hworld | ⟨t, c, next, -, -, hworld⟩ := Pool.step_world program happen s i quiet
      · rw [hworld]
      · rw [hworld]
        rfl

end

/-- The only file of the workspace. -/
theorem version_host {bytes : Bytes} {mtimeNs : Int} {path : JsString} {version : Version}
    (h : (host bytes mtimeNs).version path = some version) :
    version = ⟨⟨.file, 1, 2, bytes.length, mtimeNs, 3⟩, bytes⟩ := by
  obtain ⟨place, bytes', mode, -, hnode, rfl⟩ := Host.version_eq_some.mp h
  change Volume.node? ⟨Table.empty.put [scalars (js "AGENTS.md")] (.file bytes 0o644), 0⟩ place =
    some (.file bytes' mode) at hnode
  rw [Volume.node?] at hnode
  split at hnode
  · cases hnode
  · rw [Table.find?_put] at hnode
    split at hnode
    · cases hnode
      rfl
    · rw [Table.find?_empty] at hnode
      cases hnode

theorem possible_rewrite {w : World} (hw : w.timeline = ⟨[], host [97, 98] 7⟩) :
    Possible w rewrite := by
  unfold Possible
  rw [hw]
  refine ⟨fun path version hversion _ n m version' hm hversion' => ?_, trivial⟩
  have hn := Timeline.le_present_of_at? hm
  obtain rfl : n = 0 := Nat.le_zero.mp hn
  obtain rfl : host [97, 98] 7 = m := Option.some.inj hm
  rw [version_host hversion, version_host hversion']
  decide +kernel

/-- The thread of a sample after some actions. -/
def thread? (start : Host) (actions : List (Pool.Action Visit Turn)) :
    Option (Thread Visit Call Call.Answer (Except Thrown InstructionsResolveResult)) :=
  (runFrom (Pool.step options.service.program happen) ⟨World.start start, []⟩ actions).threads[0]?

/-- What it shows of the documents that it has returned. -/
def shown? {α : Type} (view : InstructionDocument → α) (start : Host)
    (actions : List (Pool.Action Visit Turn)) : Option (List α) :=
  (thread? start actions).bind fun t => t.rest.result?.bind fun outcome =>
    outcome.toOption.map fun result => result.documents.map view

theorem result_of_shown {α : Type} {view : InstructionDocument → α} {start : Host}
    {actions : List (Pool.Action Visit Turn)} {shown : List α}
    (h : shown? view start actions = some shown) : ∃ t result, thread? start actions = some t ∧
      t.rest.result? = some (.ok result) ∧ result.documents.map view = shown := by
  obtain ⟨t, ht, h⟩ := Option.bind_eq_some_iff.mp h
  obtain ⟨outcome, houtcome, h⟩ := Option.bind_eq_some_iff.mp h
  obtain ⟨result, hresult, hshown⟩ := Option.map_eq_some_iff.mp h
  cases outcome with
  | error e => cases hresult
  | ok result' =>
      obtain rfl := Option.some.inj hresult
      exact ⟨t, result', ht, houtcome, hshown⟩

/-- A history whose last step returns what is shown. -/
theorem returning {α : Type} {view : InstructionDocument → α} {start : Host}
    {actions : List (Pool.Action Visit Turn)} {shown : List α}
    (hmeets : Meets (Pool.step options.service.program happen) HistoryStep ⟨World.start start, []⟩
      (actions ++ [.call 0 quiet]))
    (hrunning : ((thread? start actions).map fun t => (t.request, t.rest.result?.isSome)) =
      some (visit, false))
    (hshown : shown? view start (actions ++ [.call 0 quiet]) = some shown) :
    ∃ timeline result, Returning options.service start actions 0 quiet visit timeline result ∧
      result.documents.map view = shown := by
  obtain ⟨t, result, ht, hresult, hdocuments⟩ := result_of_shown hshown
  obtain ⟨t', ht', hvisit⟩ := Option.map_eq_some_iff.mp hrunning
  obtain ⟨hvisit, hnone⟩ := Prod.mk.inj hvisit
  have hnone' : t'.rest.result? = none := Option.not_isSome_iff_eq_none.mp (by rw [hnone]; simp)
  exact ⟨_, result, ⟨hmeets, ⟨t', ht', hvisit, hnone'⟩, ⟨t, ht, hresult⟩, rfl⟩, hdocuments⟩

/-- The history of a file that is written again. -/
theorem meets_actions : Meets (Pool.step options.service.program happen) HistoryStep
    ⟨World.start (host [97, 98] 7), []⟩ (actions ++ [.call 0 quiet]) := by
  refine ⟨rfl, ?_⟩
  change Meets _ _ _ ((_ ++ _) ++ _)
  rw [List.append_assoc]
  refine (meets_quiet 10 _).append _ ⟨fun _ _ _ _ _ => ?_, (meets_quiet 8 _).append _ ?_⟩
  · exact possible_rewrite (timeline_quiet 10 _)
  · exact meets_quiet 1 _

/-- The history of a file that stays. -/
theorem meets_still (start : Host) (n : Nat) :
    Meets (Pool.step options.service.program happen) HistoryStep ⟨World.start start, []⟩
      (.start visit :: List.replicate n (.call 0 quiet) ++ [.call 0 quiet]) :=
  ⟨rfl, (meets_quiet n _).append _ (meets_quiet 1 _)⟩

end Sample

/-- The file is written while it is read: its new content is returned, and not
the mixture that the first attempt has read. -/
theorem resolve_untorn_rewritten : ∃ timeline result,
    Returning Sample.options.service (Sample.host [97, 98] 7) Sample.actions 0 Sample.quiet
        Sample.visit timeline result ∧
      result.documents.map InstructionDocument.content = [js "cde"] ∧
      ∀ document ∈ result.documents, ∀ file ∈ builtinFiles, document.providerId = file.1 →
        ∃ version, ReadFrom Sample.options.service Sample.visit timeline file.2 document
          version := by
  obtain ⟨timeline, result, hreturning, hcontents⟩ :=
    Sample.returning Sample.meets_actions (by decide +kernel)
      (by decide +kernel : Sample.shown? InstructionDocument.content _ _ = some [js "cde"])
  exact ⟨timeline, result, hreturning, hcontents,
    resolve_untorn Sample.options_injective Sample.new_options hreturning⟩

end Benchhand.Instructions
