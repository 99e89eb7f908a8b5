/-
Benchhand.Filesystem.ConcurrentTheorems — concurrent mutations are serial per file.

`Concurrent.Inv` ties the requests to their keys: what is left of a request that
looks for its target goes on with what it has seen, an operation that the queue
has not started has made no call, one that has settled has come to its end, and
every key sees the volume that its own operations would have made of the first
one, one after the other. One action keeps it (`Inv.step`). So the operations of
a key end as the requests do one by one (`mutations_serialisable`).
-/
import Benchhand.Filesystem.MutationTheorems
import Benchhand.Filesystem.TerritoryTheorems
import Benchhand.Filesystem.WriteQueueTheorems
import Benchhand.Filesystem.WriteSuccessTheorems
import Benchhand.Process.Runs
import Benchhand.Process.Views

namespace Benchhand.Filesystem

open Text Posix Process
open Workspace (wellFormed_of_mem_splitOn)

/-! ## The two parts together -/

section
variable (service : Service) (uuid : JsString) (m : Mutation)

/-- A request is its two parts. -/
theorem request_eq : m.request service uuid =
    m.prepare service >>= fun prepared => prepared.operation service uuid := by
  cases m with
  | write request =>
      have hwrite : Mutation.request service uuid (.write request) =
          MutationResult.write <$> (service.prepareWrite request >>= service.writeAtomic uuid) := rfl
      rw [hwrite, map_bind]
      exact (bind_map_left Prepared.write (service.prepareWrite request) fun prepared =>
        prepared.operation service uuid).symm
  | patch request =>
      have hpatch : Mutation.request service uuid (.patch request) = MutationResult.patch <$>
          (service.preparePatch request >>= service.patchOperation uuid) := rfl
      rw [hpatch, map_bind]
      exact (bind_map_left Prepared.patch (service.preparePatch request) fun prepared =>
        prepared.operation service uuid).symm

/-- Without failing calls it is the request as it runs on its own. -/
theorem alone_eq (work : Work) (v : Volume) (h : ∀ f ∈ work.faults, f = none) :
    work.alone service v = Prog.run perform (work.mutation.request service work.uuid).run v := by
  unfold Work.alone
  rw [request_eq]
  split
  · rename_i prepared v' hprepare
    rw [Async.run_bind_of_ok hprepare]
    exact Prog.runAs_last _ _ _ h
  · rename_i e v' hprepare
    rw [Async.run_bind_of_error hprepare]

end

/-! ## Actions -/

namespace Concurrent

/-- The actions that are possible, and what they do. -/
inductive Next (service : Service) (s : Concurrent) : ConcurrentAction → Concurrent → Prop where
  | idle (a : ConcurrentAction) : Next service s a s
  | request (uuid : JsString) (mutation : Mutation) :
      Next service s (.request uuid mutation)
        { s with flights := s.flights ++ [⟨uuid, mutation, (mutation.prepare service).run⟩] }
  | look {j : Nat} {fault : Option Fault} {flight : Flight} {c : Call}
      {next : Answer c → Prog Call Answer (Except Thrown Prepared)}
      (hflight : s.flights[j]? = some flight) (hrest : flight.rest = .call c next) :
      Next service s (.prepare j fault)
        { s with
          vol := (respond fault c s.vol).2
          flights := s.flights.set j { flight with rest := next (respond fault c s.vol).1 } }
  | enter {j : Nat} {flight : Flight} {prepared : Prepared}
      (hflight : s.flights[j]? = some flight) (hrest : flight.rest = .done (.ok prepared)) :
      Next service s (.enter j)
        { s with
          flights := s.flights.eraseIdx j
          queue := s.queue.serializeWrite prepared.target
          works := s.works ++ [⟨flight.uuid, flight.mutation, prepared,
            (prepared.operation service flight.uuid).run, []⟩] }
  | react {job : Job} {i : Nat} {queue : WriteQueue MutationResult Thrown}
      (hstep : WriteQueue.Step s.queue (.react job i) queue) :
      Next service s (.react job i) { s with queue }
  | work {i : Nat} {fault : Option Fault} {work : Work} {c : Call}
      {next : Answer c → Prog Call Answer (Except Thrown MutationResult)}
      (hrunning : s.queue.Running i) (hwork : s.works[i]? = some work)
      (hrest : work.rest = .call c next) :
      Next service s (.work i fault)
        { s with
          vol := (respond fault c s.vol).2
          works := s.works.set i
            { work with
              rest := next (respond fault c s.vol).1
              faults := work.faults ++ [fault] } }
  | settle {i : Nat} {work : Work} {outcome : Except Thrown MutationResult}
      {queue : WriteQueue MutationResult Thrown} (hwork : s.works[i]? = some work)
      (hrest : work.rest = .done outcome)
      (hstep : WriteQueue.Step s.queue (.settle i (settlement outcome)) queue) :
      Next service s (.settle i) { s with queue }

theorem next_step (service : Service) (s : Concurrent) (a : ConcurrentAction) :
    Next service s a (s.step service a) := by
  cases a with
  | request uuid mutation => exact .request uuid mutation
  | prepare j fault =>
      rw [step]
      split
      · rename_i flight hflight
        cases hrest : flight.rest with
        | done outcome =>
            obtain ⟨hlt, heq⟩ := List.getElem?_eq_some_iff.mp hflight
            have hsame : ({ flight with rest := .done outcome } : Flight) = s.flights[j] := by
              rw [heq, ← hrest]
            dsimp only [Prog.step]
            rw [hsame, List.set_getElem_self hlt]
            exact .idle _
        | call c next => exact .look hflight hrest
      · exact .idle _
  | enter j =>
      rw [step]
      split
      · rename_i hflight
        exact .enter hflight rfl
      · exact .idle _
  | react job i =>
      rw [step]
      cases hstep : s.queue.step (.react job i) with
      | none => exact .idle _
      | some queue => exact .react (WriteQueue.step_iff.mp hstep)
  | work i fault =>
      rw [step]
      split
      · rename_i hguard
        rw [Bool.and_eq_true, List.elem_iff, Option.isNone_iff_eq_none] at hguard
        split
        · rename_i hwork
          exact .work hguard hwork rfl
        · exact .idle _
      · exact .idle _
  | settle i =>
      rw [step]
      split
      · rename_i outcome _ hwork
        cases hstep : s.queue.step (.settle i (settlement outcome)) with
        | none => exact .idle _
        | some queue => exact .settle hwork rfl (WriteQueue.step_iff.mp hstep)
      · exact .idle _

end Concurrent

/-! ## The invariant -/

/-- What a request that looks for its target has seen. -/
structure Flight.Sound (service : Service) (v : Volume) (requests : List (JsString × Mutation))
    (flight : Flight) : Prop where
  asked : (flight.uuid, flight.mutation) ∈ requests
  looks : flight.rest.Uses Lookup
  seen : ∃ before, Glimpses v before ∧ ∀ more a, flight.rest.Trace more a →
    (flight.mutation.prepare service).run.Trace (before ++ more) a

/-- What a request in the queue has seen, and what its operation can count on. -/
structure Work.Sound (service : Service) (v : Volume) (requests : List (JsString × Mutation))
    (work : Work) : Prop where
  asked : (work.uuid, work.mutation) ∈ requests
  prepares : ∃ dir name, Prepares service v work.mutation work.prepared dir name
  honest : ∀ f ∈ work.faults, HonestFault f

/-- The operation in the lane of its key. -/
def Work.strand (service : Service) (work : Work) :
    Strand JsString Call Answer (Option Fault) (Except Thrown MutationResult) :=
  ⟨work.prepared.target, (work.prepared.operation service work.uuid).run, work.faults, work.rest⟩

structure Concurrent.Inv (service : Service) (v : Volume) (requests : List (JsString × Mutation))
    (s : Concurrent) : Prop where
  queue : s.queue.Inv
  calls : s.queue.calls.map WriteCall.key = s.works.map fun work => work.prepared.target
  flights : ∀ flight ∈ s.flights, flight.Sound service v requests
  works : ∀ work ∈ s.works, work.Sound service v requests
  waiting : ∀ i work, s.works[i]? = some work → i ∉ s.queue.started →
    (work.strand service).Waiting
  settled : ∀ i work outcome, s.works[i]? = some work → s.queue.operation i = some outcome →
    ∃ result, work.rest = .done result ∧ outcome = settlement result
  lanes : Lanes respond (Kin v) (SameFor service (requests.map Prod.fst) v) v
    (s.works.map (Work.strand service)) s.vol

section
variable {service : Service} {v : Volume} {requests : List (JsString × Mutation)} {s : Concurrent}

theorem Concurrent.Inv.kin (h : s.Inv service v requests) : Kin v s.vol := by
  obtain ⟨u, -, hsame⟩ := h.lanes []
  exact hsame.kin

/-- The key of a call is the target of its operation. -/
theorem Concurrent.Inv.call_of_work (h : s.Inv service v requests) {i : Nat} {work : Work}
    (hwork : s.works[i]? = some work) :
    ∃ call, s.queue.calls[i]? = some call ∧ call.key = work.prepared.target := by
  have hkey := congrArg (·[i]?) h.calls
  simp only [List.getElem?_map, hwork, Option.map_some] at hkey
  exact Option.map_eq_some_iff.mp hkey

/-- An operation that has started finds the earlier ones of its key settled. -/
theorem Concurrent.Inv.earlier (h : s.Inv service v requests) {i j : Nat} {work later : Work}
    (hwork : s.works[i]? = some work) (hlater : s.works[j]? = some later) (hlt : i < j)
    (hkey : later.prepared.target = work.prepared.target) (hstarted : j ∈ s.queue.started) :
    s.queue.operation i ≠ none := by
  obtain ⟨call, hcall, hcallKey⟩ := h.call_of_work hlater
  obtain ⟨before, hbefore, hbeforeKey⟩ := h.call_of_work hwork
  exact h.queue.operation_of_result (h.queue.earlier_of_caught (h.queue.started j hstarted) hcall
    hlt hbefore (by rw [hbeforeKey, hcallKey, hkey]))

theorem Concurrent.Inv.start (service : Service) (v : Volume)
    (requests : List (JsString × Mutation)) : (Concurrent.start v).Inv service v requests where
  queue := .init
  calls := rfl
  flights := List.forall_mem_nil _
  works := List.forall_mem_nil _
  waiting _ _ h := absurd h (by simp [Concurrent.start])
  settled _ _ _ h := absurd h (by simp [Concurrent.start])
  lanes := .nil (.refl v) fun _ => .refl (.refl v)

/-! ## One action -/

/-- The name that a request asks for. -/
theorem requested_of_aims (hseparate : Separate requests) {uuid : JsString} {m : Mutation}
    (hasked : (uuid, m) ∈ requests) {root : Path} {segs : List JsString} {dir : Path}
    {name : JsString} (haims : service.Aims v m.workspaceId m.path root segs dir name) :
    Requested (requests.map Prod.fst) name := by
  have hmem := mem_of_normalizeRelativePath haims.segments haims.path
  refine ⟨(haims.segments name (by simp)).toPlain, ?_, ?_⟩
  · exact wellFormed_of_mem_splitOn (wellFormed_portable (hseparate.wellFormed _ hasked)) hmem
  · intro uuid' huuid' hbelow
    obtain ⟨request, hrequest, rfl⟩ := List.mem_map.mp huuid'
    have hslash := slash_notMem_uuid (hseparate.uuid request hrequest)
    have hpart : name <:+: m.path.map portableUnit := by
      have hjoin : joinSegments ((m.path.map portableUnit).splitOn slash) =
          m.path.map portableUnit := List.intercalate_splitOn slash
      exact hjoin ▸ infix_joinSegments hmem
    exact hseparate.fresh _ hasked request hrequest
      (infix_of_portable hslash (hbelow.trans hpart))

/-- A lookup changes nothing. -/
theorem respond_lookup {c : Call} (hc : Lookup c) (fault : Option Fault) (w : Volume) :
    (respond fault c w).2 = w := by
  cases fault <;> cases c <;> first | rfl | exact absurd hc id

/-- A request that makes one more lookup. -/
theorem Flight.Sound.look {flight : Flight} (h : flight.Sound service v requests) {c : Call}
    {next : Answer c → Prog Call Answer (Except Thrown Prepared)}
    (hrest : flight.rest = .call c next) {w : Volume} (hw : Kin v w) (fault : Option Fault) :
    Flight.Sound service v requests { flight with rest := next (respond fault c w).1 } := by
  obtain ⟨hasked, hlooks, before, hbefore, hseen⟩ := h
  rw [hrest] at hlooks hseen
  refine ⟨hasked, hlooks.2 _, before ++ [⟨c, (respond fault c w).1⟩], ?_, fun more a hmore => ?_⟩
  · refine glimpses_append.mpr ⟨hbefore, fun e he => ?_⟩
    obtain rfl := List.mem_singleton.mp he
    exact ⟨w, fault, hw.ways, rfl⟩
  · rw [List.append_assoc]
    exact hseen _ a (.call hmore)

theorem lookups_prepare (service : Service) (m : Mutation) :
    Async.Uses Lookup (m.prepare service) := by
  cases m with
  | write request => exact Async.uses_map (lookups_prepareWrite service request)
  | patch request => exact Async.uses_map (lookups_preparePatch service request)

/-- A request that has found its target. -/
theorem Flight.Sound.enter {flight : Flight} (h : flight.Sound service v requests)
    {prepared : Prepared} (hrest : flight.rest = .done (.ok prepared))
    (rest : Prog Call Answer (Except Thrown MutationResult)) :
    Work.Sound service v requests ⟨flight.uuid, flight.mutation, prepared, rest, []⟩ := by
  obtain ⟨hasked, -, before, hbefore, hseen⟩ := h
  rw [hrest] at hseen
  have htrace := hseen [] (.ok prepared) (.done _)
  rw [List.append_nil] at htrace
  exact ⟨hasked, prepares_of_returns htrace hbefore, List.forall_mem_nil _⟩

theorem getElem?_concat {α : Type} {l : List α} {a b : α} {i : Nat}
    (h : (l ++ [a])[i]? = some b) : l[i]? = some b ∨ i = l.length ∧ b = a := by
  obtain hlt | heq | hgt := Nat.lt_trichotomy i l.length
  · exact .inl (List.getElem?_append_left hlt ▸ h)
  · subst heq
    rw [List.getElem?_concat_length] at h
    exact .inr ⟨rfl, (Option.some.inj h).symm⟩
  · rw [List.getElem?_eq_none (by simp; omega)] at h
    cases h

/-- What a job of the queue leaves alone. -/
theorem react_queue {queue queue' : WriteQueue MutationResult Thrown} {job : Job} {i : Nat}
    (h : WriteQueue.Step queue (.react job i) queue') :
    queue'.calls = queue.calls ∧ queue'.operation = queue.operation ∧
      ∀ j ∈ queue.started, j ∈ queue'.started := by
  cases h with
  | start => exact ⟨rfl, rfl, fun j hj => List.mem_append_left _ hj⟩
  | _ => exact ⟨rfl, rfl, fun j hj => hj⟩

namespace Concurrent

theorem Inv.request (h : s.Inv service v requests) {uuid : JsString} {mutation : Mutation}
    (hasked : (uuid, mutation) ∈ requests) :
    Inv service v requests
      { s with flights := s.flights ++ [⟨uuid, mutation, (mutation.prepare service).run⟩] } where
  queue := h.queue
  calls := h.calls
  flights flight hflight := by
    obtain hflight | hflight := List.mem_append.mp hflight
    · exact h.flights flight hflight
    · obtain rfl := List.mem_singleton.mp hflight
      exact ⟨hasked, lookups_prepare service mutation, [], List.forall_mem_nil _, fun _ _ h => h⟩
  works := h.works
  waiting := h.waiting
  settled := h.settled
  lanes := h.lanes

theorem Inv.look (h : s.Inv service v requests) {j : Nat} {flight : Flight} {c : Call}
    {next : Answer c → Prog Call Answer (Except Thrown Prepared)} (fault : Option Fault)
    (hflight : s.flights[j]? = some flight) (hrest : flight.rest = .call c next) :
    Inv service v requests
      { s with
        vol := (respond fault c s.vol).2
        flights := s.flights.set j { flight with rest := next (respond fault c s.vol).1 } } := by
  have hsound := h.flights flight (List.mem_of_getElem? hflight)
  have hlooks := hsound.looks
  rw [hrest] at hlooks
  rw [respond_lookup hlooks.1]
  exact
    { h with
      flights := fun flight' hflight' => by
        obtain hmem | rfl := List.mem_or_eq_of_mem_set hflight'
        · exact h.flights flight' hmem
        · exact hsound.look hrest h.kin fault }

theorem Inv.enter (h : s.Inv service v requests) {j : Nat} {flight : Flight}
    {prepared : Prepared} (hflight : s.flights[j]? = some flight)
    (hrest : flight.rest = .done (.ok prepared)) :
    Inv service v requests
      { s with
        flights := s.flights.eraseIdx j
        queue := s.queue.serializeWrite prepared.target
        works := s.works ++ [⟨flight.uuid, flight.mutation, prepared,
          (prepared.operation service flight.uuid).run, []⟩] } where
  queue := h.queue.call prepared.target
  calls := by
    rw [List.map_append, ← h.calls]
    exact List.map_append
  flights flight' hflight' := h.flights flight' (List.mem_of_mem_eraseIdx hflight')
  works work hwork := by
    obtain hwork | hwork := List.mem_append.mp hwork
    · exact h.works work hwork
    · obtain rfl := List.mem_singleton.mp hwork
      exact (h.flights flight (List.mem_of_getElem? hflight)).enter hrest _
  waiting i work hwork hstarted := by
    obtain hwork | ⟨-, rfl⟩ := getElem?_concat hwork
    · exact h.waiting i work hwork hstarted
    · exact ⟨rfl, rfl⟩
  settled i work outcome hwork houtcome := by
    obtain hwork | ⟨rfl, -⟩ := getElem?_concat hwork
    · exact h.settled i work outcome hwork houtcome
    · -- the queue has not heard of this operation
      have hstarted := h.queue.operation _ (Option.ne_none_iff_exists'.mpr ⟨outcome, houtcome⟩)
      have hlt := h.queue.lt_of_caught (h.queue.started _ hstarted)
      have hlength := congrArg List.length h.calls
      rw [List.length_map, List.length_map] at hlength
      omega
  lanes := by
    rw [List.map_append]
    exact h.lanes.enter ⟨rfl, rfl⟩

theorem Inv.react (h : s.Inv service v requests) {job : Job} {i : Nat}
    {queue : WriteQueue MutationResult Thrown}
    (hstep : WriteQueue.Step s.queue (.react job i) queue) :
    Inv service v requests { s with queue } := by
  obtain ⟨hcalls, hoperation, hstarted⟩ := react_queue hstep
  exact
    { h with
      queue := h.queue.step hstep
      calls := hcalls ▸ h.calls
      waiting := fun j work hwork hj => h.waiting j work hwork fun hmem => hj (hstarted j hmem)
      settled := fun j work outcome hwork houtcome =>
        h.settled j work outcome hwork (hoperation ▸ houtcome) }

theorem Inv.settle (h : s.Inv service v requests) {i : Nat} {work : Work}
    {result : Except Thrown MutationResult} {queue : WriteQueue MutationResult Thrown}
    (hwork : s.works[i]? = some work) (hrest : work.rest = .done result)
    (hstep : WriteQueue.Step s.queue (.settle i (settlement result)) queue) :
    Inv service v requests { s with queue } := by
  have hqueue := h.queue.step hstep
  cases hstep with
  | settle hrunning =>
      exact
        { h with
          queue := hqueue
          settled := fun j work' outcome hwork' houtcome => by
            obtain ⟨rfl, rfl⟩ | ⟨-, houtcome⟩ := WriteQueue.update_eq_some houtcome
            · obtain rfl := Option.some.inj (hwork.symm.trans hwork')
              exact ⟨result, hrest, rfl⟩
            · exact h.settled j work' outcome hwork' houtcome }

theorem Inv.work (hservice : service.Identified (requests.map Prod.fst))
    (hseparate : Separate requests) (h : s.Inv service v requests) {i : Nat} {work : Work}
    {c : Call} {next : Answer c → Prog Call Answer (Except Thrown MutationResult)}
    {fault : Option Fault} (hhonest : HonestFault fault) (hrunning : s.queue.Running i)
    (hwork : s.works[i]? = some work) (hrest : work.rest = .call c next) :
    Inv service v requests
      { s with
        vol := (respond fault c s.vol).2
        works := s.works.set i
          { work with rest := next (respond fault c s.vol).1, faults := work.faults ++ [fault] } } := by
  have hsound := h.works work (List.mem_of_getElem? hwork)
  obtain ⟨hlt, hat⟩ := List.getElem?_eq_some_iff.mp hwork
  refine
    { h with
      calls := ?_
      works := fun work' hwork' => ?_
      waiting := fun j work' hwork' hj => ?_
      settled := fun j work' outcome hwork' houtcome => ?_
      lanes := ?_ }
  · refine h.calls.trans (List.ext_getElem? fun j => ?_)
    rw [List.getElem?_map, List.getElem?_map]
    by_cases hj : i = j
    · subst hj
      rw [List.getElem?_set_self hlt, hwork]
      rfl
    · rw [List.getElem?_set_ne hj]
  · obtain hmem | rfl := List.mem_or_eq_of_mem_set hwork'
    · exact h.works work' hmem
    · exact ⟨hsound.asked, hsound.prepares, List.forall_mem_append.mpr
        ⟨hsound.honest, fun f hf => List.mem_singleton.mp hf ▸ hhonest⟩⟩
  · obtain ⟨rfl, -⟩ | ⟨-, hwork'⟩ := getElem?_set_cases hwork'
    · exact absurd hrunning.1 hj
    · exact h.waiting j work' hwork' hj
  · obtain ⟨rfl, -⟩ | ⟨-, hwork'⟩ := getElem?_set_cases hwork'
    · exact absurd houtcome (by rw [hrunning.2]; exact Option.some_ne_none outcome |>.symm)
    · exact h.settled j work' outcome hwork' houtcome
  · obtain ⟨before, after, hsplit, hlength, hset⟩ : ∃ before after,
        s.works = before ++ work :: after ∧ before.length = i ∧
          s.works.set i { work with
            rest := next (respond fault c s.vol).1
            faults := work.faults ++ [fault] } = before ++ { work with
              rest := next (respond fault c s.vol).1
              faults := work.faults ++ [fault] } :: after :=
      hat ▸ List.exists_of_set hlt
    have hlanes := h.lanes
    rw [hsplit, List.map_append, List.map_cons] at hlanes
    rw [hset, List.map_append, List.map_cons]
    obtain ⟨dir, name, ⟨root, segs, haims⟩, htarget, hparent, -⟩ := hsound.prepares
    refine hlanes.call hrest (fun t ht hlane => ?_) fun m u hm hsteps hu hsame =>
      within_operation hservice (List.mem_map_of_mem hsound.asked) haims.stands
        (requested_of_aims hseparate hsound.asked haims) htarget hparent hsound.honest hm hsteps hu
        hsame
    -- the later ones of the key have not started
    obtain ⟨later, hlater, rfl⟩ := List.mem_map.mp ht
    obtain ⟨k, hk⟩ := List.mem_iff_getElem?.mp hlater
    have hindex : s.works[i + 1 + k]? = some later := by
      rw [hsplit, List.getElem?_append_right (by omega), hlength,
        show i + 1 + k - i = k + 1 by omega, List.getElem?_cons_succ, hk]
    exact h.waiting _ later hindex fun hstarted =>
      h.earlier hwork hindex (by omega) hlane hstarted hrunning.2

/-- One action. -/
theorem Inv.step (hservice : service.Identified (requests.map Prod.fst))
    (hseparate : Separate requests) (h : s.Inv service v requests) {a : ConcurrentAction}
    (hasked : ∀ request, a.request? = some request → request ∈ requests) (hhonest : a.Honest) :
    (s.step service a).Inv service v requests := by
  generalize hs : s.step service a = s'
  have hnext := hs ▸ next_step service s a
  cases hnext with
  | idle => exact h
  | request uuid mutation => exact h.request (hasked _ rfl)
  | look hflight hrest => exact h.look _ hflight hrest
  | enter hflight hrest => exact h.enter hflight hrest
  | react hstep => exact h.react hstep
  | @work i fault work c next hrunning hwork hrest =>
      refine h.work hservice hseparate ?_ hrunning hwork hrest
      rintro f rfl
      exact hhonest
  | settle hwork hrest hstep => exact h.settle hwork hrest hstep

/-- Any actions. -/
theorem Inv.run (hservice : service.Identified (requests.map Prod.fst))
    (hseparate : Separate requests) {actions : List ConcurrentAction}
    (hasked : ∀ a ∈ actions, ∀ request, a.request? = some request → request ∈ requests)
    (hhonest : ∀ a ∈ actions, a.Honest) (h : s.Inv service v requests) :
    (runFrom (Concurrent.step service) s actions).Inv service v requests := by
  induction actions generalizing s with
  | nil => exact h
  | cons a actions ih =>
      rw [runFrom_cons]
      obtain ⟨hasked, hactions⟩ := List.forall_mem_cons.mp hasked
      obtain ⟨hhonest, hhonests⟩ := List.forall_mem_cons.mp hhonest
      exact ih hactions hhonests (h.step hservice hseparate hasked hhonest)

end Concurrent

/-! ## One by one -/

theorem alone_of_steps {work : Work} (h : work.Sound service v requests) {w w' : Volume}
    (hw : Kin v w) {result : Except Thrown MutationResult}
    (hsteps : Prog.Steps respond (work.prepared.operation service work.uuid).run w work.faults
      (.done result) w') : work.alone service w = (result, w') := by
  obtain ⟨dir, name, hprepares⟩ := h.prepares
  have hsettles : Prog.run perform (work.mutation.prepare service).run w = (.ok work.prepared, w) :=
    hprepares.settles w hw.ways
  unfold Work.alone
  rw [hsettles]
  exact hsteps.runAs

/-- Operations that run one after the other, of which the first ones have
settled, are those requests one by one. -/
theorem oneByOne_of_serial {entries : List (Work × Option (Settlement MutationResult Thrown))}
    {w u : Volume}
    (hserial : Serial respond (Kin v) w (entries.map fun e => e.1.strand service) u)
    (hsound : ∀ e ∈ entries, e.1.Sound service v requests)
    (hsettled : ∀ e ∈ entries, ∀ outcome, e.2 = some outcome →
      ∃ result, e.1.rest = .done result ∧ outcome = settlement result)
    (hturns : entries.Pairwise fun e e' => e.2 = none → e'.2 = none)
    {ended : List (Work × Settlement MutationResult Thrown)}
    (hended : entries.filterMap (fun e => e.2.map fun outcome => (e.1, outcome)) = ended) :
    ended.map Prod.snd = (oneByOne service (ended.map Prod.fst) w).1.map settlement ∧
      ((∀ e ∈ entries, e.2 = none → (e.1.strand service).Waiting) →
        (oneByOne service (ended.map Prod.fst) w).2 = u) := by
  subst hended
  induction entries generalizing w with
  | nil =>
      cases hserial with
      | nil hw => exact ⟨rfl, fun _ => rfl⟩
  | cons e entries ih =>
      obtain ⟨work, settled?⟩ := e
      obtain ⟨hfirst, hlater⟩ := List.pairwise_cons.mp hturns
      cases settled? with
      | none =>
          -- it has not settled, and so none of the later ones has
          have hnone : ∀ e ∈ (work, none) :: entries, e.2 = none :=
            List.forall_mem_cons.mpr ⟨rfl, fun e he => hfirst e he rfl⟩
          rw [List.filterMap_eq_nil_iff.mpr fun e he => by rw [hnone e he]; rfl]
          refine ⟨rfl, fun hwaiting => hserial.waiting fun t ht => ?_⟩
          obtain ⟨e, he, rfl⟩ := List.mem_map.mp ht
          exact hwaiting e he (hnone e he)
      | some outcome =>
          obtain ⟨result, hrest, rfl⟩ := hsettled _ List.mem_cons_self outcome rfl
          cases hserial with
          | @cons _ w' _ _ _ hw hsteps hserial =>
              have hsteps' : Prog.Steps respond (work.prepared.operation service work.uuid).run w
                  work.faults (.done result) w' := hrest ▸ hsteps
              have halone := alone_of_steps (hsound _ List.mem_cons_self) hw hsteps'
              obtain ⟨hresults, hlast⟩ := ih hserial
                (fun e he => hsound e (List.mem_cons_of_mem _ he))
                (fun e he => hsettled e (List.mem_cons_of_mem _ he)) hlater
              simp only [List.filterMap_cons, Option.map_some, List.map_cons, oneByOne, halone]
              refine ⟨congrArg _ hresults, fun hwaiting => hlast fun e he => ?_⟩
              exact hwaiting e (List.mem_cons_of_mem _ he)

/-- The operations of a key, and how they have settled. -/
def Concurrent.entries (s : Concurrent) (key : JsString) :
    List (Work × Option (Settlement MutationResult Thrown)) :=
  s.works.zipIdx.filterMap fun (work, i) =>
    if work.prepared.target = key then some (work, s.queue.operation i) else none

theorem mem_entries {key : JsString} {e : Work × Option (Settlement MutationResult Thrown)} :
    e ∈ s.entries key ↔ ∃ i, s.works[i]? = some e.1 ∧ e.1.prepared.target = key ∧
      s.queue.operation i = e.2 := by
  obtain ⟨work, settled?⟩ := e
  unfold Concurrent.entries
  simp only [List.mem_filterMap, List.mem_zipIdx_iff_getElem?, Prod.exists]
  constructor
  · rintro ⟨work', i, hwork, h⟩
    split at h
    · rename_i hkey
      cases h
      exact ⟨i, hwork, hkey, rfl⟩
    · cases h
  · rintro ⟨i, hwork, hkey, hsettled⟩
    exact ⟨work, i, hwork, by rw [if_pos hkey, hsettled]⟩

theorem settled_eq (s : Concurrent) (key : JsString) : s.settled key =
    (s.entries key).filterMap fun e => e.2.map fun outcome => (e.1, outcome) := by
  unfold Concurrent.settled Concurrent.entries
  rw [List.filterMap_filterMap]
  refine List.filterMap_congr fun e _ => ?_
  dsimp only
  split <;> rfl

/-- The operations of a key are those of its lane. -/
theorem lane_eq (service : Service) (s : Concurrent) (key : JsString) :
    lane key (s.works.map (Work.strand service)) =
      (s.entries key).map fun e => e.1.strand service := by
  have hlane : lane key (s.works.map (Work.strand service)) = s.works.filterMap fun work =>
      if work.prepared.target = key then some (work.strand service) else none := by
    unfold lane
    rw [← List.filterMap_eq_filter, List.filterMap_map]
    refine List.filterMap_congr fun work _ => ?_
    unfold Work.strand
    simp [Option.guard]
  have hworks : s.works = s.works.zipIdx.map Prod.fst := (List.zipIdx_map_fst 0 s.works).symm
  rw [hlane, hworks, List.filterMap_map, Concurrent.entries, List.map_filterMap]
  refine List.filterMap_congr fun e _ => ?_
  dsimp only [Function.comp]
  split <;> rfl

/-- An operation that has not settled keeps the later ones of its key waiting. -/
theorem Concurrent.Inv.turns (h : s.Inv service v requests) (key : JsString) :
    (s.entries key).Pairwise fun e e' => e.2 = none → e'.2 = none := by
  unfold Concurrent.entries
  rw [List.pairwise_filterMap, List.pairwise_iff_getElem]
  intro i j hi hj hlt e he e' he' hnone
  rw [List.getElem_zipIdx, Nat.zero_add] at he he'
  obtain ⟨hkey, hentry⟩ := Option.ite_none_right_eq_some.mp he
  obtain ⟨hkey', hentry'⟩ := Option.ite_none_right_eq_some.mp he'
  obtain rfl := Option.some.inj hentry
  obtain rfl := Option.some.inj hentry'
  rw [List.length_zipIdx] at hi hj
  by_contra hsettled
  exact h.earlier (List.getElem?_eq_getElem hi) (List.getElem?_eq_getElem hj) hlt
    (hkey'.trans hkey.symm) (h.queue.operation j hsettled) hnone

/-- The operations of a key have run one after the other, as far as it sees. -/
theorem Concurrent.Inv.serial (h : s.Inv service v requests) (key : JsString) :
    ∃ u, Serial respond (Kin v) v ((s.entries key).map fun e => e.1.strand service) u ∧
      SameFor service (requests.map Prod.fst) v key s.vol u := by
  obtain ⟨u, hserial, hsame⟩ := h.lanes key
  rw [lane_eq] at hserial
  exact ⟨u, hserial, hsame⟩

theorem Concurrent.Inv.entry (h : s.Inv service v requests) {key : JsString}
    {e : Work × Option (Settlement MutationResult Thrown)} (he : e ∈ s.entries key) :
    e.1.Sound service v requests ∧ e.1.prepared.target = key ∧ ∀ outcome, e.2 = some outcome →
      ∃ result, e.1.rest = .done result ∧ outcome = settlement result := by
  obtain ⟨i, hi, hkey, hsettled⟩ := mem_entries.mp he
  exact ⟨h.works e.1 (List.mem_of_getElem? hi), hkey, fun outcome houtcome =>
    h.settled i e.1 outcome hi (hsettled.trans houtcome)⟩

theorem Concurrent.Inv.waits (h : s.Inv service v requests) {key : JsString} (hquiet : s.Quiet key)
    {e : Work × Option (Settlement MutationResult Thrown)} (he : e ∈ s.entries key)
    (hnone : e.2 = none) : (e.1.strand service).Waiting := by
  obtain ⟨i, hi, hkey, hsettled⟩ := mem_entries.mp he
  exact h.waiting i e.1 hi fun hstarted =>
    hquiet i e.1 hi hkey ⟨hstarted, hsettled.trans hnone⟩

/-- What has the name of a key is what the key sees there. -/
theorem entryAt_congr {uuids : List JsString} {w u : Volume} {dir : Path} {name : JsString}
    (hdir : v.Stands dir) (hname : Requested uuids name) (hu : Kin v u)
    (h : SameFor service uuids v (target dir [name]) w u) :
    entryAt w (target dir [name]) = entryAt u (target dir [name]) := by
  have hplace := h.agree (dir ++ [scalars name]) ⟨dir, name, hdir.plain, hname, rfl, .inl rfl⟩
  unfold entryAt
  rw [locate_entry (h.kin.ways.stands hdir) hname.plain Bool.noConfusion,
    locate_entry (hu.ways.stands hdir) hname.plain Bool.noConfusion]
  split
  · rename_i place hlocate
    split at hlocate
    · cases hlocate
    · obtain rfl := Except.ok.inj hlocate
      exact hplace
  · rfl

end

theorem identified_of_separate {service : Service} (hpid : IsPid service.pid)
    {requests : List (JsString × Mutation)} (hseparate : Separate requests) :
    service.Identified (requests.map Prod.fst) := by
  refine ⟨hpid, fun uuid huuid => ?_⟩
  obtain ⟨request, hrequest, rfl⟩ := List.mem_map.mp huuid
  exact hseparate.uuid request hrequest

theorem Concurrent.inv_of_actions {service : Service} (hpid : IsPid service.pid) (v : Volume)
    {actions : List ConcurrentAction}
    (hseparate : Separate (actions.filterMap ConcurrentAction.request?))
    (hhonest : ∀ a ∈ actions, a.Honest) :
    (runFrom (Concurrent.step service) (Concurrent.start v) actions).Inv service v
      (actions.filterMap ConcurrentAction.request?) :=
  .run (identified_of_separate hpid hseparate) hseparate
    (fun a ha _ hrequest => List.mem_filterMap.mpr ⟨a, ha, hrequest⟩) hhonest (.start service v _)

/-- Requests that run at the same time, in any order of their calls, and
whatever fails: those of one target settle as they do one by one in the order of
their calls of `#serializeWrite`; and when none of them is running, the target
is what it is then. -/
theorem mutations_serialisable {service : Service} (hpid : IsPid service.pid) {v : Volume}
    {actions : List ConcurrentAction}
    (hseparate : Separate (actions.filterMap ConcurrentAction.request?))
    (hhonest : ∀ a ∈ actions, a.Honest) {work : Work}
    (hwork : work ∈ (runFrom (Concurrent.step service) (Concurrent.start v) actions).works) :
    let s := runFrom (Concurrent.step service) (Concurrent.start v) actions
    let key := work.prepared.target
    let serial := oneByOne service ((s.settled key).map Prod.fst) v
    (s.settled key).map Prod.snd = serial.1.map settlement ∧
      (s.Quiet key → entryAt s.vol key = entryAt serial.2 key) := by
  intro s key serial
  have hinv : s.Inv service v (actions.filterMap ConcurrentAction.request?) :=
    Concurrent.inv_of_actions hpid v hseparate hhonest
  have hsound := hinv.works work hwork
  obtain ⟨u, hserial, hsame⟩ := hinv.serial key
  obtain ⟨hresults, hlast⟩ := oneByOne_of_serial hserial (fun e he => (hinv.entry he).1)
    (fun e he => (hinv.entry he).2.2) (hinv.turns key) (settled_eq s key).symm
  refine ⟨hresults, fun hquiet => ?_⟩
  have hend : serial.2 = u := hlast fun e he => hinv.waits hquiet he
  obtain ⟨dir, name, ⟨root, segs, haims⟩, htarget, -, -⟩ := hsound.prepares
  have hkey : key = target dir [name] := htarget
  rw [hend, hkey]
  exact entryAt_congr haims.stands (requested_of_aims hseparate hsound.asked haims)
    hserial.fit_last (hkey ▸ hsame)

theorem Concurrent.quiet_of_ended {s : Concurrent}
    (hended : ∀ i ∈ s.queue.started, (s.queue.operation i).isSome = true) (key : JsString) :
    s.Quiet key := by
  intro i work _ _ hrunning
  obtain ⟨hi, hpending⟩ := hrunning
  have hsome := hended i hi
  rw [hpending] at hsome
  cases hsome

open ConcurrentAction in
/-- Two requests create a file, and the second one is the first in the queue. -/
def twoCreates : List ConcurrentAction :=
  [request sampleUuid (.write (createNamed (js "b"))),
    request (js "7d444840-9dc0-11d1-b245-5ffdce74fad2") (.write (createNamed (js "b"))),
    prepare 0 none, prepare 1 none, prepare 1 none, prepare 0 none, prepare 1 none,
    prepare 0 none, enter 1, enter 0, react .caught 0, react .start 0] ++
  List.replicate 11 (work 0 none) ++
  [settle 0, react .adopt 0, react .tail 0, react .caught 1, react .start 1] ++
  List.replicate 5 (work 1 none) ++ [settle 1]

theorem mutations_serialisable_creates :
    let s := runFrom (Concurrent.step oneWorkspace) (Concurrent.start (oneFile [])) twoCreates
    let key := js "/ws/b"
    let serial := oneByOne oneWorkspace ((s.settled key).map Prod.fst) (oneFile [])
    (s.settled key).map Prod.snd = serial.1.map settlement ∧
      entryAt s.vol key = entryAt serial.2 key := by
  intro s key serial
  have hseparate : Separate (twoCreates.filterMap ConcurrentAction.request?) :=
    ⟨by decide +kernel, by decide +kernel, by decide +kernel⟩
  have hpid : IsPid oneWorkspace.pid := by decide
  have hquiet : s.Quiet key := Concurrent.quiet_of_ended (by decide +kernel) key
  have hmem : key ∈ s.works.map fun work => work.prepared.target := by decide +kernel
  obtain ⟨work, hwork, hkey⟩ := List.mem_map.mp hmem
  obtain ⟨hsettled, hentry⟩ := mutations_serialisable hpid hseparate (by decide +kernel) hwork
  rw [hkey] at hsettled hentry
  exact ⟨hsettled, hentry hquiet⟩

end Benchhand.Filesystem
