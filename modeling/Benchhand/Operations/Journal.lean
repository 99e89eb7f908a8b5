/-
Benchhand.Operations.Journal — OperationJournal: the functions over the table.

A row is a row of operation_journal; its key is operation_id. The time columns
are written and never read, so they are left out. `SqliteText` is what the
database driver does to a string that is stored in a TEXT column or compared
with one: a well-formed string is kept, and of any other it is only assumed that
it does not become empty. A parameter that is undefined is no `SqliteParameter`:
the driver refuses it or binds NULL for it.
Every function is one transaction or one statement, which changes the table
completely or not at all; `fault` is the error a statement throws instead of
running.

The value an effect fulfils with is a `Live` one, whose getters and `toJSON`
methods can throw where it is checked or encoded; a stored result is plain data.
`Call.advance` is `execute`, cut where it touches the database or waits: each
`Phase` is a point where other calls, on this connection or another, can run.
-/
import Benchhand.Contracts.LiveValueTheorems
import Benchhand.Store.Table

namespace Benchhand.Operations

open Benchhand.Text Benchhand.Js Benchhand.Contracts Benchhand.Store

/-! ## Rows -/

/-- Strings as they come back from TEXT columns. -/
structure SqliteText where
  text : JsString → JsString
  keeps : ∀ s, WellFormed s → text s = s
  ne_nil : ∀ s, s ≠ [] → text s ≠ []
  /-- What is thrown for a parameter that is undefined; none when it is bound
  as NULL. -/
  undefinedError : Option JsError

/-- The driver that writes U+FFFD for a lone surrogate and binds NULL for
undefined. -/
def SqliteText.replacing : SqliteText :=
  ⟨toWellFormed, fun _ => toWellFormed_of_wellFormed, fun _ => toWellFormed_ne_nil, none⟩

/-- A parameter bound to a TEXT column; a string, or undefined. -/
def SqliteText.bind (db : SqliteText) : Option JsString → Except JsError (Option JsString)
  | some s => .ok (some (db.text s))
  | none =>
      match db.undefinedError with
      | some e => .error e
      | none => .ok none

structure Row where
  kind : JsString
  fingerprint : JsString
  state : OperationState
  resultJson : Option JsString
  errorJson : Option JsString
  version : Int
  deriving DecidableEq

/-- The table operation_journal, by operation_id. -/
abbrev Journal := Table JsString Row

structure OperationRequest where
  operationId : JsString
  kind : JsString
  fingerprint : JsString
  deriving DecidableEq

structure SerializedOperationError where
  name : JsString
  message : JsString
  deriving DecidableEq

structure OperationRecord where
  operationId : JsString
  kind : JsString
  fingerprint : JsString
  state : OperationState
  version : Nat
  result : Option Graph
  error : Option SerializedOperationError

/-! ## What is thrown -/

/-- Where an exception comes from. -/
inductive Failure where
  /-- `OperationConflictError`. -/
  | conflict (operationId : JsString)
  /-- `markRunning` changed no row. -/
  | notAccepted (operationId : JsString)
  /-- `#markCommitted` changed no row. -/
  | notCommitted (operationId : JsString)
  /-- `#markFailed` changed no row. -/
  | notMarkedFailed (operationId : JsString)
  /-- A committed record without a result. -/
  | noResult (operationId : JsString)
  /-- A failed record without an error. -/
  | noError (operationId : JsString)
  /-- `#read` rejects a column. -/
  | invalidRow (e : JsError)
  /-- The statement or transaction failed. -/
  | database (e : JsError)
  /-- The effect threw, or its promise rejected. -/
  | effect (thrown : ThrownValue)
  /-- `parseResultEnvelope` rejects the result, or reading it throws. -/
  | invalidResult (thrown : ThrownValue)
  /-- `JSON.stringify` of the result threw. -/
  | notEncoded (thrown : ThrownValue)
  /-- `String(error)` threw in `serializeError`. -/
  | unprintable
  deriving DecidableEq

/-- The exception itself. -/
def Failure.thrown : Failure → ThrownValue
  | .conflict id => .error ⟨js "OperationConflictError",
      js "operation id " ++ id ++ js " is already bound to different input"⟩
  | .notAccepted id => .error (.error (js "operation " ++ id ++ js " is not in accepted state"))
  | .notCommitted id => .error (.error (js "operation " ++ id ++ js " could not be committed"))
  | .notMarkedFailed id =>
      .error (.error (js "operation " ++ id ++ js " could not be marked failed"))
  | .noResult id => .error (.error (js "committed operation " ++ id ++ js " has no result"))
  | .noError id => .error (.error (js "failed operation " ++ id ++ js " has no error"))
  | .invalidRow e => .error e
  | .database e => .error e
  | .effect thrown => thrown
  | .invalidResult thrown => thrown
  | .notEncoded thrown => thrown
  | .unprintable => .error (.typeError [])

/-- `serializeError(error)`; none when `String(error)` throws. -/
def serializeError : ThrownValue → Option SerializedOperationError
  | .error e => some ⟨e.name, e.message⟩
  | .value asString => asString.map fun s => ⟨js "Error", s⟩

/-- The object `{ name, message }`. -/
def SerializedOperationError.tree (e : SerializedOperationError) : Tree :=
  .object (.prop (js "name") (.string e.name) (.prop (js "message") (.string e.message) .noProps))

/-- `JSON.stringify(error)` of a serialized error. -/
def SerializedOperationError.encode (e : SerializedOperationError) : JsString :=
  match Json.stringify (Graph.ofTree e.tree) with
  | .ok (some text) => text
  | _ => []

/-- `parseSerializedError(encoded)`. -/
def parseSerializedError (encoded : JsString) : Except JsError SerializedOperationError :=
  match Json.parse encoded with
  | none => .error ⟨js "SyntaxError", []⟩
  | some value =>
      match (property value "name").root, (property value "message").root with
      | .string name, .string message => .ok ⟨name, message⟩
      | _, _ =>
          .error (.error (js "operation journal contains invalid serialized error data"))

/-! ## Reading a row -/

/-- The stored result of a row, checked as a wire value. -/
def readResult (encoded : Option JsString) : Except JsError (Option Graph) :=
  match encoded with
  | none => .ok none
  | some text =>
      match Json.parse text with
      | none => .error ⟨js "SyntaxError", []⟩
      | some value => (wireResult value).map some

def readError (encoded : Option JsString) : Except JsError (Option SerializedOperationError) :=
  match encoded with
  | none => .ok none
  | some text => (parseSerializedError text).map some

/-- The record of a row, as `#read` builds it. -/
def Row.record (row : Row) (key : JsString) : Except JsError OperationRecord := do
  let operationId ← parseEntityId "operation" key
  let version ← parseEntityVersion row.version
  let result ← readResult row.resultJson
  let error ← readError row.errorJson
  pure ⟨operationId, row.kind, row.fingerprint, row.state, version, result, error⟩

section

variable (db : SqliteText)

/-- `#read(operationId)`, which is also `get`. -/
def Journal.read (journal : Journal) (operationId : JsString) :
    Except Failure (Option OperationRecord) :=
  match journal.find? (db.text operationId) with
  | none => .ok none
  | some row =>
      match row.record (db.text operationId) with
      | .ok record => .ok (some record)
      | .error e => .error (.invalidRow e)

/-! ## The statements -/

inductive PrepareOutcome where
  | execute
  | replay (record : OperationRecord)
  | inProgress (state : OperationState)
  | reconcileRequired

/-- The row that `prepare` inserts. -/
def acceptedRow (request : OperationRequest) : Row :=
  ⟨db.text request.kind, db.text request.fingerprint, .accepted, none, none, 0⟩

/-- `prepare(request)`: one immediate transaction. -/
def Journal.prepare (journal : Journal) (request : OperationRequest) (fault : Option JsError) :
    Except Failure PrepareOutcome × Journal :=
  match fault with
  | some e => (.error (.database e), journal)
  | none =>
      match Journal.read db journal request.operationId with
      | .error failure => (.error failure, journal)
      | .ok (some existing) =>
          if existing.kind ≠ request.kind ∨ existing.fingerprint ≠ request.fingerprint then
            (.error (.conflict request.operationId), journal)
          else
            match existing.state with
            | .committed | .failed | .rolledBack => (.ok (.replay existing), journal)
            | .unknownNeedsReconcile => (.ok .reconcileRequired, journal)
            | .accepted | .running => (.ok (.inProgress existing.state), journal)
      | .ok none =>
          match journal.insert? (db.text request.operationId) (acceptedRow db request) with
          | some journal' => (.ok .execute, journal')
          -- a UNIQUE constraint error; the select has just found no row
          | none => (.error (.database (.error [])), journal)

/-- `UPDATE … SET state = 'running' … WHERE operation_id = ? AND state = 'accepted'`. -/
def Journal.markRunning (journal : Journal) (operationId : JsString) (fault : Option JsError) :
    Except Failure Unit × Journal :=
  match fault with
  | some e => (.error (.database e), journal)
  | none =>
      let update := journal.updateKey (db.text operationId) (fun row => row.state == .accepted)
        fun row => { row with state := .running, version := row.version + 1 }
      if update.2 ≠ 1 then (.error (.notAccepted operationId), update.1)
      else (.ok (), update.1)

/-- `UPDATE … SET state = 'unknown-needs-reconcile' … WHERE state IN ('accepted', 'running')`. -/
def Journal.reconcileInterrupted (journal : Journal) (fault : Option JsError) :
    Except Failure Nat × Journal :=
  match fault with
  | some e => (.error (.database e), journal)
  | none =>
      let update := journal.updateWhere
        (fun _ row => row.state == .accepted || row.state == .running)
        fun row => { row with state := .unknownNeedsReconcile, version := row.version + 1 }
      (.ok update.2, update.1)

/-- The result_json of a result: `JSON.stringify(result)`, as it is bound. -/
def encodeResult (result : Live) : Except Failure (Option JsString) :=
  match result.stringify with
  | .error thrown => .error (.notEncoded thrown)
  | .ok encoded => (db.bind encoded).mapError .database

/-- `UPDATE … SET state = 'committed' … WHERE operation_id = ? AND state = 'running'`. -/
def Journal.markCommitted (journal : Journal) (operationId : JsString) (result : Live)
    (fault : Option JsError) : Except Failure Unit × Journal :=
  match encodeResult db result with
  | .error failure => (.error failure, journal)
  | .ok encoded =>
      match fault with
      | some e => (.error (.database e), journal)
      | none =>
          let update := journal.updateKey (db.text operationId) (fun row => row.state == .running)
            fun row => { row with
              state := .committed
              resultJson := encoded
              errorJson := none
              version := row.version + 1 }
          if update.2 ≠ 1 then (.error (.notCommitted operationId), update.1)
          else (.ok (), update.1)

/-- `UPDATE … SET state = 'failed' … WHERE operation_id = ? AND state = 'running'`. -/
def Journal.markFailed (journal : Journal) (operationId : JsString)
    (error : SerializedOperationError) (fault : Option JsError) :
    Except Failure Unit × Journal :=
  match fault with
  | some e => (.error (.database e), journal)
  | none =>
      let update := journal.updateKey (db.text operationId) (fun row => row.state == .running)
        fun row => { row with
          state := .failed
          resultJson := none
          errorJson := some (db.text error.encode)
          version := row.version + 1 }
      if update.2 ≠ 1 then (.error (.notMarkedFailed operationId), update.1)
      else (.ok (), update.1)

/-! ## execute -/

inductive ExecutionOutcome where
  | executed (result : Live)
  | replayedCommitted (result : Graph)
  | replayedFailed (error : SerializedOperationError)
  | replayedRolledBack
  | inProgress (state : OperationState)
  | reconcileRequired

/-- Where a call of `execute` is. -/
inductive Phase where
  /-- Before `prepare`. -/
  | called
  /-- `prepare` inserted the row. -/
  | claimed
  /-- `markRunning` succeeded; the effect is invoked next. -/
  | started
  /-- The effect was invoked and has not settled. -/
  | awaiting
  /-- The effect fulfilled with a value. -/
  | fulfilled (value : Live)
  /-- In the catch block. -/
  | catching (failure : Failure)
  | returned (outcome : ExecutionOutcome)
  | threw (failure : Failure)
  /-- The process died. -/
  | crashed

/-- Whether a call has ended. -/
def Phase.ended : Phase → Bool
  | .returned _ | .threw _ | .crashed => true
  | _ => false

/-- The branch of `execute` for a replayed record. -/
def replayRecord (request : OperationRequest) (record : OperationRecord) : Phase :=
  match record.state with
  | .committed =>
      match record.result with
      | none => .threw (.noResult request.operationId)
      | some result => .returned (.replayedCommitted result)
  | .failed =>
      match record.error with
      | none => .threw (.noError request.operationId)
      | some error => .returned (.replayedFailed error)
  | _ => .returned .replayedRolledBack

/-- After `prepare`. -/
def afterPrepare (request : OperationRequest) : Except Failure PrepareOutcome → Phase
  | .error failure => .threw failure
  | .ok .execute => .claimed
  | .ok (.inProgress state) => .returned (.inProgress state)
  | .ok .reconcileRequired => .returned .reconcileRequired
  | .ok (.replay record) => replayRecord request record

/-- The step of a call from its phase; `fault` is the error its statement
throws, if it throws. -/
def Call.advance (journal : Journal) (request : OperationRequest) (phase : Phase)
    (fault : Option JsError) : Phase × Journal :=
  match phase with
  | .called =>
      let (outcome, journal) := Journal.prepare db journal request fault
      (afterPrepare request outcome, journal)
  | .claimed =>
      match Journal.markRunning db journal request.operationId fault with
      | (.ok (), journal) => (.started, journal)
      | (.error failure, journal) => (.threw failure, journal)
  | .started => (.awaiting, journal)
  | .fulfilled value =>
      match Live.wireResult value with
      | .error thrown => (.catching (.invalidResult thrown), journal)
      | .ok wire =>
          match Journal.markCommitted db journal request.operationId wire fault with
          | (.ok (), journal) => (.returned (.executed wire), journal)
          | (.error failure, journal) => (.catching failure, journal)
  | .catching failure =>
      match serializeError failure.thrown with
      | none => (.threw .unprintable, journal)
      | some error =>
          match Journal.markFailed db journal request.operationId error fault with
          | (.ok (), journal) => (.threw failure, journal)
          | (.error failure', journal) => (.threw failure', journal)
  | phase => (phase, journal)

end

end Benchhand.Operations
