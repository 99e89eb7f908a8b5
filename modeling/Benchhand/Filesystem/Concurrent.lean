/-
Benchhand.Filesystem.Concurrent — many writes and patches at once.

Between two calls of one request, others make theirs. A request finds its
target, enters `#serializeWrite` with the target as the key, and its operation
makes its calls when the queue has started it (`Concurrent.step`). Which request
goes on next is left open, and so is which calls fail. `oneByOne` runs requests
one after the other.
-/
import Benchhand.Filesystem.Commit
import Benchhand.Filesystem.WriteQueue
import Benchhand.Process.Steps

namespace Benchhand.Filesystem

open Text Posix Process

/-! ## The two parts of a mutation -/

inductive MutationResult where
  | write (result : WriteResult)
  | patch (result : PatchResult)
  deriving DecidableEq

namespace MutationResult

def previousSha256 : MutationResult → Option JsString
  | .write result => result.previousSha256
  | .patch result => some result.previousSha256

def sha256 : MutationResult → JsString
  | .write result => result.sha256
  | .patch result => result.sha256

end MutationResult

/-- What a mutation has found out when it enters the queue. -/
inductive Prepared where
  | write (options : WriteOptions)
  | patch (options : PatchOptions)

/-- The key of `#serializeWrite`. -/
def Prepared.target : Prepared → JsString
  | .write options => options.target
  | .patch options => options.target

def Prepared.parent : Prepared → JsString
  | .write options => options.parent
  | .patch options => options.parent

/-- The operation that a patch hands to `#serializeWrite`. -/
def Service.patchOperation (service : Service) (uuid : JsString) (options : PatchOptions) :
    Async PatchResult := do
  let (content, editsApplied) ← service.patchedContent options
  let write ← tryCatch (service.writeAtomic uuid (Mutation.patched options content))
    (service.patchFailure options)
  return { path := options.path, previousSha256 := options.expectedSha256, sha256 := write.sha256
           editsApplied, bytesWritten := write.bytesWritten, durability := write.durability }

/-- The operation of a mutation; `uuid` is the value of `randomUUID()`. -/
def Prepared.operation (service : Service) (uuid : JsString) : Prepared → Async MutationResult
  | .write options => .write <$> service.writeAtomic uuid options
  | .patch options => .patch <$> service.patchOperation uuid options

namespace Mutation

def workspaceId : Mutation → JsString
  | .write request => request.workspaceId
  | .patch request => request.workspaceId

def path : Mutation → JsString
  | .write request => request.path
  | .patch request => request.path

/-- What a mutation does before it enters the queue. -/
def prepare (service : Service) : Mutation → Async Prepared
  | .write request => .write <$> service.prepareWrite request
  | .patch request => .patch <$> service.preparePatch request

/-- The whole mutation, when nobody else is in the queue. -/
def request (service : Service) (uuid : JsString) : Mutation → Async MutationResult
  | .write request => .write <$> service.write uuid request
  | .patch request => .patch <$> service.patch uuid request

end Mutation

/-! ## Requests in flight -/

/-- A call that is carried out, or fails. -/
def respond : Option Fault → Handler Call Answer Volume
  | none => perform
  | some fault => fault.apply

/-- A request that has not entered the queue. -/
structure Flight where
  uuid : JsString
  mutation : Mutation
  rest : Prog Call Answer (Except Thrown Prepared)

/-- A request that has entered the queue, and the rest of its operation. -/
structure Work where
  uuid : JsString
  mutation : Mutation
  prepared : Prepared
  rest : Prog Call Answer (Except Thrown MutationResult)
  /-- How the calls of its operation have gone so far. -/
  faults : List (Option Fault)

/-- A service with its requests; the works are in the order of their calls of
`#serializeWrite`. -/
structure Concurrent where
  vol : Volume
  flights : List Flight
  queue : WriteQueue MutationResult Thrown
  works : List Work

inductive ConcurrentAction where
  | request (uuid : JsString) (mutation : Mutation)
  /-- The next call of a request that is not in the queue. -/
  | prepare (j : Nat) (fault : Option Fault)
  /-- A request has found its target, and calls `#serializeWrite`. -/
  | enter (j : Nat)
  | react (job : Job) (i : Nat)
  /-- The next call of an operation that is running. -/
  | work (i : Nat) (fault : Option Fault)
  /-- An operation that has come to its end resolves or rejects. -/
  | settle (i : Nat)

/-- What a promise is fulfilled with. -/
def Settlement.value? {α ε : Type} : Settlement α ε → Option α
  | .fulfilled value => value
  | .rejected _ => none

/-- How the promise of an operation settles. -/
def settlement : Except Thrown MutationResult → Settlement MutationResult Thrown
  | .ok result => .fulfilled (some result)
  | .error e => .rejected e

namespace Concurrent

def start (v : Volume) : Concurrent := ⟨v, [], WriteQueue.init, []⟩

/-- One action; one that is not possible changes nothing. -/
def step (service : Service) (s : Concurrent) : ConcurrentAction → Concurrent
  | .request uuid mutation =>
      { s with flights := s.flights ++ [⟨uuid, mutation, (mutation.prepare service).run⟩] }
  | .prepare j fault =>
      match s.flights[j]? with
      | some flight =>
          { s with
            vol := (flight.rest.step (respond fault) s.vol).2
            flights :=
              s.flights.set j { flight with rest := (flight.rest.step (respond fault) s.vol).1 } }
      | none => s
  | .enter j =>
      match s.flights[j]? with
      | some ⟨uuid, mutation, .done (.ok prepared)⟩ =>
          { s with
            flights := s.flights.eraseIdx j
            queue := s.queue.serializeWrite prepared.target
            works :=
              s.works ++ [⟨uuid, mutation, prepared, (prepared.operation service uuid).run, []⟩] }
      | _ => s
  | .react job i => { s with queue := (s.queue.step (.react job i)).getD s.queue }
  | .work i fault =>
      if s.queue.started.elem i && (s.queue.operation i).isNone then
        match s.works[i]? with
        | some ⟨uuid, mutation, prepared, .call c next, faults⟩ =>
            { s with
              vol := (respond fault c s.vol).2
              works := s.works.set i
                ⟨uuid, mutation, prepared, next (respond fault c s.vol).1, faults ++ [fault]⟩ }
        | _ => s
      else s
  | .settle i =>
      match s.works[i]? with
      | some ⟨_, _, _, .done outcome, _⟩ =>
          { s with queue := (s.queue.step (.settle i (settlement outcome))).getD s.queue }
      | _ => s

/-- The operations with a key that have settled, in the order of the calls, and
how. -/
def settled (s : Concurrent) (key : JsString) :
    List (Work × Settlement MutationResult Thrown) :=
  s.works.zipIdx.filterMap fun (work, i) =>
    if work.prepared.target = key then (s.queue.operation i).map fun outcome => (work, outcome)
    else none

/-- What the operations with a key have resolved with, in the order of the calls. -/
def fulfilled (s : Concurrent) (key : JsString) : List MutationResult :=
  (s.settled key).filterMap fun (_, outcome) => outcome.value?

/-- No operation with the key is running. -/
def Quiet (s : Concurrent) (key : JsString) : Prop :=
  ∀ i work, s.works[i]? = some work → work.prepared.target = key → ¬ s.queue.Running i

end Concurrent

/-! ## One request after the other -/

/-- The request on its own; the calls of its operation go as they have gone. -/
def Work.alone (service : Service) (work : Work) (v : Volume) :
    Except Thrown MutationResult × Volume :=
  match Prog.run perform (work.mutation.prepare service).run v with
  | (.ok prepared, v') =>
      Prog.runAs respond none work.faults (prepared.operation service work.uuid).run v'
  | (.error e, v') => (.error e, v')

/-- The requests one at a time: their outcomes, and the volume at the end. -/
def oneByOne (service : Service) : List Work → Volume → List (Except Thrown MutationResult) × Volume
  | [], v => ([], v)
  | work :: works, v =>
      let (outcome, v') := work.alone service v
      let (outcomes, last) := oneByOne service works v'
      (outcome :: outcomes, last)

/-- What has the name of a path string. -/
def entryAt (v : Volume) (p : JsString) : Option Node :=
  match v.locate false p with
  | .ok place => v.node? place
  | .error _ => none

/-- Each result is of a change of what the result before it has left; the first
one, of what has the digest. -/
inductive Replaces : Option JsString → List MutationResult → Prop
  | nil (digest : Option JsString) : Replaces digest []
  | cons {result : MutationResult} {results : List MutationResult}
      (h : Replaces (some result.sha256) results) :
      Replaces result.previousSha256 (result :: results)

/-- The digest after the last one. -/
def leaves (digest : Option JsString) (results : List MutationResult) : Option JsString :=
  results.foldl (fun _ result => some result.sha256) digest

/-! ## What a service can count on -/

/-- The text of `process.pid`. -/
def IsPid (pid : JsString) : Prop := ∀ u ∈ pid, ch '0' ≤ u ∧ u ≤ ch '9'

-- The digits are looked at one by one: code units are a finite type, and an
-- instance that goes through all of them may be in scope.
instance : DecidablePred IsPid := fun pid =>
  List.decidableBAll (fun u => ch '0' ≤ u ∧ u ≤ ch '9') pid

/-- A value of `randomUUID()`. -/
def IsUuid (uuid : JsString) : Prop :=
  uuid.length = 36 ∧ ∀ u ∈ uuid, isHexDigit u = true ∨ u = ch '-'

instance : DecidablePred IsUuid := fun uuid =>
  @instDecidableAnd _ _ inferInstance
    (List.decidableBAll (fun u => isHexDigit u = true ∨ u = ch '-') uuid)

/-- The values of `randomUUID()` for the requests are in no path that one of
them asks for, and these paths have no lone surrogate. -/
structure Separate (requests : List (JsString × Mutation)) : Prop where
  uuid : ∀ r ∈ requests, IsUuid r.1
  fresh : ∀ r ∈ requests, ∀ r' ∈ requests, ¬ r'.1 <:+: r.2.path
  wellFormed : ∀ r ∈ requests, Text.WellFormed r.2.path

namespace ConcurrentAction

def request? : ConcurrentAction → Option (JsString × Mutation)
  | .request uuid mutation => some (uuid, mutation)
  | _ => none

/-- A call does not report that a name is missing which is there. -/
def Honest : ConcurrentAction → Prop
  | .work _ (some fault) => fault.errno.code ≠ js "ENOENT"
  | _ => True

instance : DecidablePred Honest
  | .work _ (some fault) => inferInstanceAs (Decidable (fault.errno.code ≠ js "ENOENT"))
  | .work _ none => .isTrue trivial
  | .request _ _ => .isTrue trivial
  | .prepare _ _ => .isTrue trivial
  | .enter _ => .isTrue trivial
  | .react _ _ => .isTrue trivial
  | .settle _ => .isTrue trivial

end ConcurrentAction

end Benchhand.Filesystem
