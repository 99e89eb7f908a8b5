/-
Benchhand.Operations.System — many journals on one database.

A `System` is the table, the calls of `execute` made so far on any number of
connections, and a log of what happened to the effects. A step is one
transaction, one statement, one settling of an effect or one crash, so a list
of actions is an interleaving. A process that restarts is a crash of its calls
followed by new ones; a direct call of `prepare`, `markRunning` or
`reconcileInterrupted` is an action of its own.

The log is not part of the program: it is what the statements about effects
are about.
-/
import Benchhand.Operations.Journal

namespace Benchhand.Operations

open Benchhand.Text Benchhand.Js Benchhand.Contracts Benchhand.Store

/-- A call of `execute`. -/
structure Call where
  request : OperationRequest
  phase : Phase

/-- How an effect settles: its promise fulfils, or it throws or rejects. -/
inductive Settled where
  | fulfilled (value : Live)
  | rejected (thrown : ThrownValue)

/-- What happened to the effect of a call. -/
inductive EventKind where
  | invoked
  | fulfilled
  | rejected
  deriving DecidableEq

structure Event where
  call : Nat
  operationId : JsString
  kind : EventKind
  deriving DecidableEq

structure System where
  journal : Journal
  calls : List Call
  log : List Event

/-- A database with a table and nobody using it. -/
def System.init (journal : Journal) : System := ⟨journal, [], []⟩

inductive Action where
  /-- A new call of `execute`. -/
  | execute (request : OperationRequest)
  /-- The next step of a call. -/
  | advance (call : Nat) (fault : Option JsError)
  /-- The effect of a call settles. -/
  | settle (call : Nat) (outcome : Settled)
  /-- The process of a call dies. -/
  | crash (call : Nat)
  | prepare (request : OperationRequest) (fault : Option JsError)
  | markRunning (operationId : JsString) (fault : Option JsError)
  | reconcileInterrupted (fault : Option JsError)

/-- A statement leaves another table. -/
def System.setJournal (s : System) (journal : Journal) : System := { s with journal }

/-- The call goes to a phase. -/
def System.setPhase (s : System) (i : Nat) (phase : Phase) : System :=
  { s with calls := s.calls.modify i fun c => { c with phase } }

def System.logged (s : System) (i : Nat) (c : Call) (kind : EventKind) : System :=
  { s with log := s.log ++ [⟨i, c.request.operationId, kind⟩] }

/-- A settled call. -/
def Settled.kind : Settled → EventKind
  | .fulfilled _ => .fulfilled
  | .rejected _ => .rejected

def Settled.phase : Settled → Phase
  | .fulfilled value => .fulfilled value
  | .rejected thrown => .catching (.effect thrown)

section

variable (db : SqliteText)

/-- Step `i` of the system for call `c`. -/
def System.advance (s : System) (i : Nat) (c : Call) (fault : Option JsError) : System :=
  let next := Call.advance db s.journal c.request c.phase fault
  let s' := (s.setJournal next.2).setPhase i next.1
  match c.phase with
  | .started => s'.logged i c .invoked
  | _ => s'

/-- One step; an action that is not possible changes nothing. -/
def System.step (s : System) : Action → System
  | .execute request => { s with calls := s.calls ++ [⟨request, .called⟩] }
  | .advance i fault =>
      match s.calls[i]? with
      | none => s
      | some c => s.advance db i c fault
  | .settle i outcome =>
      match s.calls[i]? with
      | none => s
      | some c =>
          match c.phase with
          | .awaiting => (s.setPhase i outcome.phase).logged i c outcome.kind
          | _ => s
  | .crash i =>
      match s.calls[i]? with
      | none => s
      | some c => if c.phase.ended then s else s.setPhase i .crashed
  | .prepare request fault => s.setJournal (Journal.prepare db s.journal request fault).2
  | .markRunning operationId fault =>
      s.setJournal (Journal.markRunning db s.journal operationId fault).2
  | .reconcileInterrupted fault =>
      s.setJournal (Journal.reconcileInterrupted s.journal fault).2

/-- A run: the actions one after the other. -/
def System.run (s : System) (actions : List Action) : System :=
  actions.foldl (System.step db) s

/-- The events of an effect invoked, fulfilled or rejected for an operation. -/
def System.count (s : System) (key : JsString) (kind : EventKind) : Nat :=
  s.log.countP fun e => db.text e.operationId == key && e.kind == kind

end

end Benchhand.Operations
