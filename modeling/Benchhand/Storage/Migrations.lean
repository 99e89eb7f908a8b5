/-
Benchhand.Storage.Migrations — SqliteDatabase.applyMigrations.

A database is the table schema_migrations and everything else in the file
(`data`). `Engine` is what the function uses of its surroundings: the digest of
`node:crypto`, and SQLite, which compares strings as TEXT values and runs a
script. A script has no transaction control and leaves schema_migrations alone.

`Phase.advance` is `applyMigrations`, cut at its statements: each `Phase` is a
point where another connection can run or the process can die. A transaction
is immediate: it holds the write lock from BEGIN to its end and works on a copy
that COMMIT installs. `applyMigrations` is the same function without
interruption.
-/
import Benchhand.Js.Value
import Benchhand.Process.Runs
import Benchhand.Store.Table

namespace Benchhand.Storage

open Benchhand.Text Benchhand.Js Benchhand.Store

structure Migration where
  id : JsString
  sql : JsString
  deriving DecidableEq

structure MigrationResult where
  applied : List JsString
  skipped : List JsString
  deriving DecidableEq

/-- SQLite and `node:crypto`, over the rest of the database `D`. -/
structure Engine (D : Type) where
  text : JsString → JsString
  sha256 : JsString → JsString
  exec : JsString → D → Except JsError D

structure Database (D : Type) where
  migrations : Option (Table JsString JsString)
  data : D

variable {D : Type} (E : Engine D)

/-- `SELECT checksum FROM schema_migrations WHERE id = ?`. -/
def Database.checksum? (db : Database D) (id : JsString) : Option JsString :=
  db.migrations.bind fun t => t.find? (E.text id)

/-- `CREATE TABLE IF NOT EXISTS schema_migrations`. -/
def Database.createMigrations (db : Database D) : Database D :=
  { db with migrations := some (db.migrations.getD .empty) }

/-- `INSERT INTO schema_migrations(id, checksum)`; none when the id is taken. -/
def Database.record? (db : Database D) (m : Migration) : Option (Database D) :=
  (db.migrations.bind fun t => t.insert? (E.text m.id) (E.sha256 m.sql)).map fun t =>
    { db with migrations := some t }

def emptyIdError : JsError := .typeError (js "migration id must not be empty")

def mismatchError (m : Migration) : JsError :=
  .error (js "migration checksum mismatch for " ++ m.id)

def uniqueError : JsError :=
  .error (js "UNIQUE constraint failed: schema_migrations.id")

/-! ## One call, cut at its statements -/

inductive Phase (D : Type) where
  | create (list : List Migration)
  | check (rest : List Migration) (result : MigrationResult)
  | begin (m : Migration) (rest : List Migration) (result : MigrationResult)
  | exec (m : Migration) (rest : List Migration) (result : MigrationResult) (tx : Database D)
  | insert (m : Migration) (rest : List Migration) (result : MigrationResult) (tx : Database D)
  | commit (m : Migration) (rest : List Migration) (result : MigrationResult) (tx : Database D)
  | returned (result : MigrationResult)
  | threw (e : JsError)
  | crashed

/-- The call is inside its transaction. -/
def Phase.inTransaction : Phase D → Bool
  | .exec _ _ _ _ => true
  | .insert _ _ _ _ => true
  | .commit _ _ _ _ => true
  | _ => false

/-- The call is over. -/
def Phase.ended : Phase D → Bool
  | .returned _ => true
  | .threw _ => true
  | .crashed => true
  | _ => false

def MigrationResult.skip (r : MigrationResult) (m : Migration) : MigrationResult :=
  { r with skipped := r.skipped ++ [m.id] }

def MigrationResult.apply (r : MigrationResult) (m : Migration) : MigrationResult :=
  { r with applied := r.applied ++ [m.id] }

/-- One statement of a call: the next phase, and the database it leaves.
`locked` says that another connection holds the write lock, for which BEGIN
and the creation of the table wait; `fault` is thrown instead of running the
statement. -/
def Phase.advance (db : Database D) (locked : Bool) (fault : Option JsError) :
    Phase D → Phase D × Database D
  | .create list =>
      match fault with
      | some e => (.threw e, db)
      | none =>
          if locked ∧ db.migrations = none then (.create list, db)
          else (.check list ⟨[], []⟩, db.createMigrations)
  | .check [] result => (.returned result, db)
  | .check (m :: rest) result =>
      if m.id = [] then (.threw emptyIdError, db)
      else
        match fault with
        | some e => (.threw e, db)
        | none =>
            match db.checksum? E m.id with
            | some checksum =>
                if checksum ≠ E.sha256 m.sql then (.threw (mismatchError m), db)
                else (.check rest (result.skip m), db)
            | none => (.begin m rest result, db)
  | .begin m rest result =>
      match fault with
      | some e => (.threw e, db)
      | none =>
          if locked then (.begin m rest result, db) else (.exec m rest result db, db)
  | .exec m rest result tx =>
      match fault with
      | some e => (.threw e, db)
      | none =>
          match E.exec m.sql tx.data with
          | .error e => (.threw e, db)
          | .ok data => (.insert m rest result { tx with data }, db)
  | .insert m rest result tx =>
      match fault with
      | some e => (.threw e, db)
      | none =>
          match tx.record? E m with
          | none => (.threw uniqueError, db)
          | some tx => (.commit m rest result tx, db)
  | .commit m rest result tx =>
      match fault with
      | some e => (.threw e, db)
      | none => (.check rest (result.apply m), tx)
  | .returned result => (.returned result, db)
  | .threw e => (.threw e, db)
  | .crashed => (.crashed, db)

/-- The migration whose script a phase commits next. -/
def Phase.committing : Phase D → Option Migration
  | .commit m _ _ _ => some m
  | _ => none

/-! ## The function without interruption -/

/-- The loop of `applyMigrations`. -/
def applyFrom (db : Database D) : List Migration → MigrationResult →
    Except JsError MigrationResult × Database D
  | [], result => (.ok result, db)
  | m :: rest, result =>
      if m.id = [] then (.error emptyIdError, db)
      else
        match db.checksum? E m.id with
        | some checksum =>
            if checksum ≠ E.sha256 m.sql then (.error (mismatchError m), db)
            else applyFrom db rest (result.skip m)
        | none =>
            match E.exec m.sql db.data with
            | .error e => (.error e, db)
            | .ok data =>
                match { db with data }.record? E m with
                | none => (.error uniqueError, db)
                | some db => applyFrom db rest (result.apply m)

/-- `applyMigrations(migrations)`. -/
def applyMigrations (db : Database D) (list : List Migration) :
    Except JsError MigrationResult × Database D :=
  applyFrom E db.createMigrations list ⟨[], []⟩

/-! ## Connections -/

/-- A database, the calls on it, and the scripts committed so far. -/
structure System (D : Type) where
  db : Database D
  calls : List (Phase D)
  committed : List Migration

inductive Action where
  | apply (list : List Migration)
  | advance (i : Nat) (fault : Option JsError)
  | crash (i : Nat)

/-- Another call than `i` is inside its transaction. -/
def System.locked (s : System D) (i : Nat) : Bool :=
  s.calls.zipIdx.any fun c => c.2 != i && c.1.inTransaction

/-- One step; an action that is not possible changes nothing. -/
def System.step (s : System D) : Action → System D
  | .apply list => { s with calls := s.calls ++ [.create list] }
  | .advance i fault =>
      match s.calls[i]? with
      | none => s
      | some phase =>
          let next := phase.advance E s.db (s.locked i) fault
          { db := next.2
            calls := s.calls.set i next.1
            committed :=
              if fault = none then s.committed ++ phase.committing.toList else s.committed }
  | .crash i =>
      match s.calls[i]? with
      | none => s
      | some phase => if phase.ended then s else { s with calls := s.calls.set i .crashed }

def System.run (s : System D) (actions : List Action) : System D :=
  Process.runFrom (System.step E) s actions

end Benchhand.Storage
