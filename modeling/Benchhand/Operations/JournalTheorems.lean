/-
Benchhand.Operations.JournalTheorems — what a statement does to a row.

`RowChange` is the life of a row: it is inserted accepted, started once, and
ends committed, failed or interrupted. Every function of the journal moves each
row along it (`prepare_rowChange` and its neighbours), so what holds of every
row is proved from `RowChange` alone: the columns agree with the state
(`Row.Valid`), an ended row stays as it is and kind and fingerprint never
change (`Row.Evolves`). `CallStep` lists once what a step of `execute` can do.
-/
import Benchhand.Operations.Journal

namespace Benchhand.Operations

open Benchhand.Text Benchhand.Js Benchhand.Contracts Benchhand.Store

/-! ## The life of a row -/

/-- What one statement can do to the row of a key. -/
inductive RowChange : Option Row → Option Row → Prop where
  | same (row : Option Row) : RowChange row row
  | inserted (kind fingerprint : JsString) :
      RowChange none (some ⟨kind, fingerprint, .accepted, none, none, 0⟩)
  | started (row : Row) (h : row.state = .accepted) :
      RowChange (some row) (some { row with state := .running, version := row.version + 1 })
  | committed (row : Row) (encoded : Option JsString) (h : row.state = .running) :
      RowChange (some row) (some { row with
        state := .committed
        resultJson := encoded
        errorJson := none
        version := row.version + 1 })
  | failed (row : Row) (text : JsString) (h : row.state = .running) :
      RowChange (some row) (some { row with
        state := .failed
        resultJson := none
        errorJson := some text
        version := row.version + 1 })
  | interrupted (row : Row) (h : row.state = .accepted ∨ row.state = .running) :
      RowChange (some row)
        (some { row with state := .unknownNeedsReconcile, version := row.version + 1 })

/-- The columns of a row agree with its state. -/
def Row.Valid (row : Row) : Prop :=
  match row.state with
  | .accepted => row.version = 0 ∧ row.resultJson = none ∧ row.errorJson = none
  | .running => row.version = 1 ∧ row.resultJson = none ∧ row.errorJson = none
  | .committed => row.version = 2 ∧ row.resultJson.isSome ∧ row.errorJson = none
  | .failed => row.version = 2 ∧ row.resultJson = none ∧ row.errorJson.isSome
  | .unknownNeedsReconcile =>
      (row.version = 1 ∨ row.version = 2) ∧ row.resultJson = none ∧ row.errorJson = none
  | .rolledBack => False

/-- The version of a row agrees with its state, whatever is in its other
columns. -/
def Row.Counted (row : Row) : Prop :=
  match row.state with
  | .accepted => row.version = 0
  | .running => row.version = 1
  | .committed | .failed => row.version = 2
  | .unknownNeedsReconcile => row.version = 1 ∨ row.version = 2
  | .rolledBack => False

/-- Committed, failed and unknown rows are not touched again. -/
def Row.Ended (row : Row) : Prop := row.state ≠ .accepted ∧ row.state ≠ .running

/-- What becomes of a row: it keeps its input, it is never accepted again, and
it keeps everything once it has ended. -/
structure Row.Evolves (row row' : Row) : Prop where
  kind_eq : row'.kind = row.kind
  fingerprint_eq : row'.fingerprint = row.fingerprint
  of_accepted : row'.state = .accepted → row.state = .accepted
  of_ended : row.Ended → row' = row

theorem Row.Evolves.refl (row : Row) : row.Evolves row := ⟨rfl, rfl, id, fun _ => rfl⟩

theorem Row.Evolves.trans {a b c : Row} (hab : a.Evolves b) (hbc : b.Evolves c) :
    a.Evolves c where
  kind_eq := hbc.kind_eq.trans hab.kind_eq
  fingerprint_eq := hbc.fingerprint_eq.trans hab.fingerprint_eq
  of_accepted h := hab.of_accepted (hbc.of_accepted h)
  of_ended h := by
    obtain rfl := hab.of_ended h
    exact hbc.of_ended h

theorem RowChange.counted {old new : Option Row} (h : RowChange old new)
    (hold : ∀ row ∈ old, row.Counted) : ∀ row ∈ new, row.Counted := by
  cases h with
  | same => exact hold
  | inserted kind fingerprint =>
      rintro row hrow
      obtain rfl := Option.some.inj hrow
      exact rfl
  | started row h | committed row encoded h | failed row text h =>
      rintro row' hrow
      obtain rfl := Option.some.inj hrow
      have hv := hold row rfl
      simp only [Row.Counted, h] at hv ⊢
      omega
  | interrupted row h =>
      rintro row' hrow
      obtain rfl := Option.some.inj hrow
      have hv := hold row rfl
      rcases h with h | h <;> (simp only [Row.Counted, h] at hv ⊢; omega)

/-- The columns go on agreeing with the state, if a row that is committed takes
a result. -/
theorem RowChange.valid {old new : Option Row} (h : RowChange old new)
    (hresult : ∀ row ∈ new, row.state = .committed → row ∈ old ∨ row.resultJson.isSome)
    (hold : ∀ row ∈ old, row.Valid) : ∀ row ∈ new, row.Valid := by
  cases h with
  | same => exact hold
  | inserted kind fingerprint =>
      rintro row hrow
      obtain rfl := Option.some.inj hrow
      exact ⟨rfl, rfl, rfl⟩
  | started row h =>
      rintro row' hrow
      obtain rfl := Option.some.inj hrow
      have hv := hold row rfl
      simp only [Row.Valid, h] at hv ⊢
      exact ⟨by omega, hv.2⟩
  | committed row encoded h =>
      rintro row' hrow
      have hsome : encoded.isSome := by
        rcases hresult _ rfl rfl with hsame | hsome
        · rw [Option.some.inj hsame] at h
          exact absurd h (by simp)
        · exact hsome
      obtain rfl := Option.some.inj hrow
      have hv := hold row rfl
      simp only [Row.Valid, h] at hv ⊢
      exact ⟨by omega, hsome, trivial⟩
  | failed row text h =>
      rintro row' hrow
      obtain rfl := Option.some.inj hrow
      have hv := hold row rfl
      simp only [Row.Valid, h] at hv ⊢
      exact ⟨by omega, by simp⟩
  | interrupted row h =>
      rintro row' hrow
      obtain rfl := Option.some.inj hrow
      have hv := hold row rfl
      rcases h with h | h <;> (simp only [Row.Valid, h] at hv ⊢; exact ⟨by omega, hv.2⟩)

/-- A row that is there stays there and evolves. -/
theorem RowChange.evolves {row : Row} {new : Option Row} (h : RowChange (some row) new) :
    ∃ row', new = some row' ∧ row.Evolves row' := by
  have hnot : row.state = .accepted ∨ row.state = .running → ¬ row.Ended := by
    rintro (h | h) ⟨h1, h2⟩
    · exact h1 h
    · exact h2 h
  cases h with
  | same => exact ⟨row, rfl, .refl row⟩
  | started _ h => exact ⟨_, rfl, rfl, rfl, fun _ => h, fun he => absurd he (hnot (.inl h))⟩
  | committed _ text h | failed _ text h =>
      exact ⟨_, rfl, rfl, rfl, by simp, fun he => absurd he (hnot (.inr h))⟩
  | interrupted _ h => exact ⟨_, rfl, rfl, rfl, by simp, fun he => absurd he (hnot h)⟩

/-- A throw that no journal whose rows are valid can produce. -/
def Failure.Impossible (failure : Failure) : Prop :=
  (∃ id, failure = .noResult id) ∨ ∃ id, failure = .noError id

/-! ## The statements -/

section

variable {db : SqliteText}

variable (db) in
/-- `prepare`: it claims a free key, or it leaves the table alone. -/
theorem prepare_cases (journal : Journal) (request : OperationRequest) (fault : Option JsError) :
    (∃ outcome, Journal.prepare db journal request fault = (outcome, journal) ∧
      outcome ≠ .ok .execute) ∨
    (journal.find? (db.text request.operationId) = none ∧
      (Journal.prepare db journal request fault).1 = .ok .execute ∧
      ∀ k, (Journal.prepare db journal request fault).2.find? k
        = if k = db.text request.operationId then some (acceptedRow db request)
          else journal.find? k) := by
  unfold Journal.prepare
  cases fault with
  | some e => exact .inl ⟨_, rfl, by simp⟩
  | none =>
      dsimp only
      cases hread : Journal.read db journal request.operationId with
      | error failure => exact .inl ⟨_, rfl, by simp⟩
      | ok found =>
          cases found with
          | some existing =>
              refine .inl ?_
              dsimp only
              split
              · exact ⟨_, rfl, by simp⟩
              · cases existing.state <;> exact ⟨_, rfl, by simp⟩
          | none =>
              have hnone : journal.find? (db.text request.operationId) = none := by
                unfold Journal.read at hread
                split at hread
                · assumption
                · split at hread <;> simp at hread
              dsimp only
              cases hinsert : journal.insert? (db.text request.operationId)
                  (acceptedRow db request) with
              | none => exact .inl ⟨_, rfl, by simp⟩
              | some journal' =>
                  exact .inr ⟨hnone, rfl, (Table.find?_insert? hinsert).2⟩

variable (db) in
/-- `markRunning`: the accepted row starts, or nothing changes and it throws. -/
theorem markRunning_cases (journal : Journal) (operationId : JsString) (fault : Option JsError) :
    ((Journal.markRunning db journal operationId fault).1 = .ok () ∧
      ∃ row, journal.find? (db.text operationId) = some row ∧ row.state = .accepted ∧
      ∀ k, (Journal.markRunning db journal operationId fault).2.find? k
        = if k = db.text operationId then
            some { row with state := .running, version := row.version + 1 }
          else journal.find? k) ∨
    ((∃ failure, (Journal.markRunning db journal operationId fault).1 = .error failure ∧
        ¬ failure.Impossible) ∧
      ∀ k, (Journal.markRunning db journal operationId fault).2.find? k = journal.find? k) := by
  unfold Journal.markRunning
  cases fault with
  | some e => exact .inr ⟨⟨_, rfl, by simp [Failure.Impossible]⟩, fun _ => rfl⟩
  | none =>
      dsimp only
      rcases Table.updateKey_cases journal (db.text operationId)
          (fun row => row.state == .accepted)
          (fun row => { row with state := .running, version := row.version + 1 }) with
        ⟨hone, row, hrow, hstate, hfind⟩ | ⟨hone, -, hfind⟩
      · rw [if_neg (not_not.mpr hone)]
        exact .inl ⟨rfl, row, hrow, by simpa using hstate, hfind⟩
      · rw [if_pos hone]
        exact .inr ⟨⟨_, rfl, by simp [Failure.Impossible]⟩, hfind⟩

/-- `reconcileInterrupted`: every accepted or running row is interrupted. -/
theorem reconcileInterrupted_rowChange (journal : Journal) (fault : Option JsError)
    (key : JsString) :
    RowChange (journal.find? key) ((Journal.reconcileInterrupted journal fault).2.find? key) := by
  unfold Journal.reconcileInterrupted
  cases fault with
  | some e => exact .same _
  | none =>
      dsimp only
      rw [Table.find?_updateWhere]
      cases hrow : journal.find? key with
      | none => exact .same _
      | some row =>
          rw [Option.map_some]
          split
          · rename_i hguard
            exact .interrupted row (by simpa using hguard)
          · exact .same _

theorem encodeResult_possible {result : Live} {failure : Failure}
    (h : encodeResult db result = .error failure) : ¬ failure.Impossible := by
  unfold encodeResult at h
  split at h
  · obtain rfl := Except.error.inj h
    simp [Failure.Impossible]
  · rename_i encoded hencoded
    cases hbind : db.bind encoded with
    | ok bound => rw [hbind] at h; exact absurd h (by simp [Except.mapError])
    | error e =>
        rw [hbind] at h
        obtain rfl := Except.error.inj h
        simp [Failure.Impossible]

variable (db) in
/-- `#markCommitted`: the running row takes the encoded result, or nothing
changes and it throws. -/
theorem markCommitted_cases (journal : Journal) (operationId : JsString) (result : Live)
    (fault : Option JsError) :
    (∃ encoded row, encodeResult db result = .ok encoded ∧ fault = none ∧
      (Journal.markCommitted db journal operationId result fault).1 = .ok () ∧
      journal.find? (db.text operationId) = some row ∧ row.state = .running ∧
      ∀ k, (Journal.markCommitted db journal operationId result fault).2.find? k
        = if k = db.text operationId then
            some { row with
              state := .committed
              resultJson := encoded
              errorJson := none
              version := row.version + 1 }
          else journal.find? k) ∨
    (∃ failure, (Journal.markCommitted db journal operationId result fault).1 = .error failure ∧
      ¬ failure.Impossible ∧ (∀ k, (Journal.markCommitted db journal operationId result fault).2.find? k
        = journal.find? k) ∧
      ((∃ encoded, encodeResult db result = .ok encoded) → fault = none →
        ∀ row, journal.find? (db.text operationId) = some row → row.state ≠ .running)) := by
  unfold Journal.markCommitted
  cases hencode : encodeResult db result with
  | error failure =>
      exact .inr ⟨failure, rfl, encodeResult_possible hencode, fun _ => rfl, by simp⟩
  | ok encoded =>
      cases fault with
      | some e => exact .inr ⟨_, rfl, by simp [Failure.Impossible], fun _ => rfl, by simp⟩
      | none =>
          dsimp only
          rcases Table.updateKey_cases journal (db.text operationId)
              (fun row => row.state == .running)
              (fun row => { row with
                state := .committed
                resultJson := encoded
                errorJson := none
                version := row.version + 1 }) with
            ⟨hone, row, hrow, hstate, hfind⟩ | ⟨hone, hguard, hfind⟩
          · rw [if_neg (not_not.mpr hone)]
            exact .inl ⟨encoded, row, rfl, rfl, rfl, hrow, by simpa using hstate, hfind⟩
          · rw [if_pos hone]
            exact .inr ⟨_, rfl, by simp [Failure.Impossible], hfind,
              fun _ _ row hrow => by simpa using hguard row hrow⟩

variable (db) in
/-- `#markFailed`: the running row takes the error, or nothing changes and it
throws. -/
theorem markFailed_cases (journal : Journal) (operationId : JsString)
    (error : SerializedOperationError) (fault : Option JsError) :
    ((Journal.markFailed db journal operationId error fault).1 = .ok () ∧
      ∃ row, journal.find? (db.text operationId) = some row ∧ row.state = .running ∧
      ∀ k, (Journal.markFailed db journal operationId error fault).2.find? k
        = if k = db.text operationId then
            some { row with
              state := .failed
              resultJson := none
              errorJson := some (db.text error.encode)
              version := row.version + 1 }
          else journal.find? k) ∨
    ((∃ failure, (Journal.markFailed db journal operationId error fault).1 = .error failure ∧
        ¬ failure.Impossible) ∧
      ∀ k, (Journal.markFailed db journal operationId error fault).2.find? k
        = journal.find? k) := by
  unfold Journal.markFailed
  cases fault with
  | some e => exact .inr ⟨⟨_, rfl, by simp [Failure.Impossible]⟩, fun _ => rfl⟩
  | none =>
      dsimp only
      rcases Table.updateKey_cases journal (db.text operationId)
          (fun row => row.state == .running)
          (fun row => { row with
            state := .failed
            resultJson := none
            errorJson := some (db.text error.encode)
            version := row.version + 1 }) with
        ⟨hone, row, hrow, hstate, hfind⟩ | ⟨hone, -, hfind⟩
      · rw [if_neg (not_not.mpr hone)]
        exact .inl ⟨rfl, row, hrow, by simpa using hstate, hfind⟩
      · rw [if_pos hone]
        exact .inr ⟨⟨_, rfl, by simp [Failure.Impossible]⟩, hfind⟩

/-! ## Records -/

theorem readResult_none_iff {encoded : Option JsString} {result : Option Graph}
    (h : readResult encoded = .ok result) : result = none ↔ encoded = none := by
  cases encoded with
  | none => simpa [readResult, eq_comm] using h
  | some text =>
      simp only [readResult] at h
      split at h
      · exact absurd h (by simp)
      · rename_i value hvalue
        cases hwire : wireResult value with
        | error e => rw [hwire] at h; exact absurd h (by simp [Except.map])
        | ok wire =>
            rw [hwire] at h
            simp only [Except.map, Except.ok.injEq] at h
            simp [← h]

theorem readError_none_iff {encoded : Option JsString}
    {error : Option SerializedOperationError} (h : readError encoded = .ok error) :
    error = none ↔ encoded = none := by
  cases encoded with
  | none => simpa [readError, eq_comm] using h
  | some text =>
      simp only [readError] at h
      cases hparse : parseSerializedError text with
      | error e => rw [hparse] at h; exact absurd h (by simp [Except.map])
      | ok e =>
          rw [hparse] at h
          simp only [Except.map, Except.ok.injEq] at h
          simp [← h]

/-- The record `#read` returns is that of the row, column by column. -/
structure RecordOf (row : Row) (record : OperationRecord) : Prop where
  kind_eq : record.kind = row.kind
  fingerprint_eq : record.fingerprint = row.fingerprint
  state_eq : record.state = row.state
  result_eq : readResult row.resultJson = .ok record.result
  error_eq : readError row.errorJson = .ok record.error

theorem recordOf_record {row : Row} {key : JsString} {record : OperationRecord}
    (h : row.record key = .ok record) : RecordOf row record := by
  simp only [Row.record, bind, Except.bind, pure, Except.pure] at h
  split at h
  · exact absurd h (by simp)
  split at h
  · exact absurd h (by simp)
  split at h
  · exact absurd h (by simp)
  rename_i result hresult
  split at h
  · exact absurd h (by simp)
  rename_i error herror
  obtain rfl := Except.ok.inj h
  exact ⟨rfl, rfl, rfl, hresult, herror⟩

theorem read_some {journal : Journal} {operationId : JsString} {record : OperationRecord}
    (h : Journal.read db journal operationId = .ok (some record)) :
    ∃ row, journal.find? (db.text operationId) = some row ∧ RecordOf row record := by
  unfold Journal.read at h
  split at h
  · exact absurd h (by simp)
  · rename_i row hrow
    split at h
    · rename_i record' hrecord
      obtain rfl := Option.some.inj (Except.ok.inj h)
      exact ⟨row, hrow, recordOf_record hrecord⟩
    · exact absurd h (by simp)

/-- What `prepare` hands out for replay is the record of an ended row. -/
theorem prepare_replay {journal : Journal} {request : OperationRequest} {fault : Option JsError}
    {record : OperationRecord}
    (h : (Journal.prepare db journal request fault).1 = .ok (.replay record)) :
    ∃ row, journal.find? (db.text request.operationId) = some row ∧ RecordOf row record ∧
      record.kind = request.kind ∧ record.fingerprint = request.fingerprint := by
  unfold Journal.prepare at h
  cases fault with
  | some e => exact absurd h (by simp)
  | none =>
      dsimp only at h
      cases hread : Journal.read db journal request.operationId with
      | error failure => rw [hread] at h; exact absurd h (by simp)
      | ok found =>
          rw [hread] at h
          cases found with
          | none => dsimp only at h; split at h <;> exact absurd h (by simp)
          | some existing =>
              dsimp only at h
              split at h
              · exact absurd h (by simp)
              · rename_i hinput
                obtain ⟨row, hrow, hof⟩ := read_some hread
                have hexisting : existing = record := by
                  split at h <;>
                    first | exact PrepareOutcome.replay.inj (Except.ok.inj h) | cases h
                subst hexisting
                exact ⟨row, hrow, hof, by simpa using hinput⟩

/-- A stored row with other input makes `prepare` throw and nothing else. -/
theorem prepare_mismatch {journal : Journal} {request : OperationRequest} {row : Row}
    (hrow : journal.find? (db.text request.operationId) = some row)
    (hinput : row.kind ≠ request.kind ∨ row.fingerprint ≠ request.fingerprint)
    (fault : Option JsError) :
    ∃ failure, Journal.prepare db journal request fault = (.error failure, journal) := by
  unfold Journal.prepare
  cases fault with
  | some e => exact ⟨_, rfl⟩
  | none =>
      dsimp only
      cases hread : Journal.read db journal request.operationId with
      | error failure => exact ⟨_, rfl⟩
      | ok found =>
          cases found with
          | none =>
              unfold Journal.read at hread
              rw [hrow] at hread
              dsimp only at hread
              split at hread <;> exact absurd hread (by simp)
          | some existing =>
              obtain ⟨row', hrow', hof⟩ := read_some hread
              obtain rfl := Option.some.inj (hrow.symm.trans hrow')
              rw [← hof.kind_eq, ← hof.fingerprint_eq] at hinput
              dsimp only
              rw [if_pos hinput]
              exact ⟨_, rfl⟩

/-! ## The steps of execute -/

/-- A replayed record of a valid row has what its state promises. -/
theorem replayRecord_of_valid (request : OperationRequest) {row : Row} {record : OperationRecord}
    (hvalid : row.Valid) (hof : RecordOf row record) :
    ∃ outcome, replayRecord request record = .returned outcome := by
  have hresult := readResult_none_iff hof.result_eq
  have herror := readError_none_iff hof.error_eq
  unfold replayRecord
  rw [hof.state_eq]
  unfold Row.Valid at hvalid
  cases hstate : row.state <;> rw [hstate] at hvalid
  case committed =>
    cases hres : record.result with
    | none => rw [hresult.mp hres] at hvalid; exact absurd hvalid.2.1 (by simp)
    | some result => exact ⟨_, rfl⟩
  case failed =>
    cases herr : record.error with
    | none => rw [herror.mp herr] at hvalid; exact absurd hvalid.2.2 (by simp)
    | some error => exact ⟨_, rfl⟩
  all_goals exact ⟨_, rfl⟩

/-- The table is the same row for row. -/
def SameRows (journal journal' : Journal) : Prop := ∀ k, journal'.find? k = journal.find? k

/-- The table with one row changed. -/
def SetRow (journal journal' : Journal) (key : JsString) (row : Row) : Prop :=
  ∀ k, journal'.find? k = if k = key then some row else journal.find? k

/-- What a step of `execute` can do to its phase and to the table. -/
inductive CallStep (db : SqliteText) (journal : Journal) (request : OperationRequest)
    (fault : Option JsError) : Phase → Phase → Journal → Prop where
  /-- Waiting for the effect, or at the end. -/
  | idle (phase : Phase) (h : phase.ended = true ∨ phase = .awaiting) :
      CallStep db journal request fault phase phase journal
  /-- `prepare` throws, or answers something else than execute. -/
  | answered (phase : Phase) (h : phase.ended = true)
      (hvalid : ∀ failure, phase = .threw failure → failure.Impossible →
        ∃ row, journal.find? (db.text request.operationId) = some row ∧ ¬ row.Valid) :
      CallStep db journal request fault .called phase journal
  | claimed {journal' : Journal} (hfree : journal.find? (db.text request.operationId) = none)
      (hset : SetRow journal journal' (db.text request.operationId) (acceptedRow db request)) :
      CallStep db journal request fault .called .claimed journal'
  | started {journal' : Journal} (row : Row)
      (hrow : journal.find? (db.text request.operationId) = some row)
      (hstate : row.state = .accepted)
      (hset : SetRow journal journal' (db.text request.operationId)
        { row with state := .running, version := row.version + 1 }) :
      CallStep db journal request fault .claimed .started journal'
  | notStarted {journal' : Journal} (failure : Failure) (hfail : ¬ failure.Impossible)
      (hsame : SameRows journal journal') :
      CallStep db journal request fault .claimed (.threw failure) journal'
  | invoked : CallStep db journal request fault .started .awaiting journal
  | committed {journal' : Journal} (value : Live) (encoded : Option JsString) (row : Row)
      (haccepted : Live.wireResult value = .ok value) (hfault : fault = none)
      (hencoded : encodeResult db value = .ok encoded)
      (hrow : journal.find? (db.text request.operationId) = some row)
      (hstate : row.state = .running)
      (hset : SetRow journal journal' (db.text request.operationId) { row with
        state := .committed
        resultJson := encoded
        errorJson := none
        version := row.version + 1 }) :
      CallStep db journal request fault (.fulfilled value) (.returned (.executed value)) journal'
  /-- The result is refused or not encoded, the update fails, or the row is not
  running. -/
  | notCommitted {journal' : Journal} (value : Live) (failure : Failure)
      (hfail : ¬ failure.Impossible) (hsame : SameRows journal journal')
      (hwhy : Live.wireResult value = .ok value → (∃ encoded, encodeResult db value = .ok encoded) →
        fault = none → ∀ row, journal.find? (db.text request.operationId) = some row → row.state ≠ .running) :
      CallStep db journal request fault (.fulfilled value) (.catching failure) journal'
  | failed {journal' : Journal} (failure : Failure) (encoded : JsString) (row : Row)
      (hrow : journal.find? (db.text request.operationId) = some row)
      (hstate : row.state = .running)
      (hset : SetRow journal journal' (db.text request.operationId) { row with
        state := .failed
        resultJson := none
        errorJson := some encoded
        version := row.version + 1 }) :
      CallStep db journal request fault (.catching failure) (.threw failure) journal'
  | notFailed {journal' : Journal} (failure failure' : Failure) (hfail : ¬ failure'.Impossible)
      (hsame : SameRows journal journal') :
      CallStep db journal request fault (.catching failure) (.threw failure') journal'

/-- `prepare` without a claim ends the call. -/
theorem ended_afterPrepare {request : OperationRequest} {outcome : Except Failure PrepareOutcome}
    (h : outcome ≠ .ok .execute) : (afterPrepare request outcome).ended = true := by
  cases outcome with
  | error failure => rfl
  | ok outcome =>
      cases outcome with
      | execute => exact absurd rfl h
      | inProgress state => rfl
      | reconcileRequired => rfl
      | replay record =>
          change (replayRecord request record).ended = true
          unfold replayRecord
          split
          · split <;> rfl
          · split <;> rfl
          · rfl

theorem prepare_error {journal : Journal} {request : OperationRequest} {fault : Option JsError}
    {failure : Failure} (h : (Journal.prepare db journal request fault).1 = .error failure) :
    ¬ failure.Impossible := by
  have hread : ∀ f, Journal.read db journal request.operationId = .error f → ¬ f.Impossible := by
    intro f hf
    unfold Journal.read at hf
    split at hf
    · exact absurd hf (by simp)
    · split at hf
      · exact absurd hf (by simp)
      · rw [← Except.error.inj hf]; simp [Failure.Impossible]
  unfold Journal.prepare at h
  cases fault with
  | some e => rw [← Except.error.inj h]; simp [Failure.Impossible]
  | none =>
      dsimp only at h
      cases hr : Journal.read db journal request.operationId with
      | error f =>
          rw [hr] at h
          exact Except.error.inj h ▸ hread f hr
      | ok found =>
          rw [hr] at h
          cases found with
          | none =>
              dsimp only at h
              split at h
              · exact absurd h (by simp)
              · rw [← Except.error.inj h]; simp [Failure.Impossible]
          | some existing =>
              dsimp only at h
              split at h
              · rw [← Except.error.inj h]; simp [Failure.Impossible]
              · split at h <;> exact absurd h (by simp)

/-- A record that lacks what its state promises is that of an invalid row. -/
theorem afterPrepare_impossible {journal : Journal} {request : OperationRequest}
    {fault : Option JsError} {outcome : Except Failure PrepareOutcome}
    (hprepare : (Journal.prepare db journal request fault).1 = outcome) (failure : Failure)
    (hphase : afterPrepare request outcome = .threw failure) (himp : failure.Impossible) :
    ∃ row, journal.find? (db.text request.operationId) = some row ∧ ¬ row.Valid := by
  cases outcome with
  | error f =>
      obtain rfl := Phase.threw.inj hphase
      exact absurd himp (prepare_error hprepare)
  | ok outcome =>
      cases outcome with
      | execute | inProgress | reconcileRequired => exact absurd hphase (by simp [afterPrepare])
      | replay record =>
          obtain ⟨row, hrow, hof, -⟩ := prepare_replay hprepare
          refine ⟨row, hrow, fun hvalid => ?_⟩
          obtain ⟨outcome, hreturned⟩ := replayRecord_of_valid request hvalid hof
          exact absurd (hphase.symm.trans hreturned) (by simp)

variable (db) in
/-- Every step of `execute` is one of these. -/
theorem callStep_advance (journal : Journal) (request : OperationRequest) (phase : Phase)
    (fault : Option JsError) :
    CallStep db journal request fault phase (Call.advance db journal request phase fault).1
      (Call.advance db journal request phase fault).2 := by
  cases phase with
  | called =>
      unfold Call.advance
      dsimp only
      rcases prepare_cases db journal request fault with
        ⟨outcome, hprepare, hne⟩ | ⟨hfree, hout, hset⟩
      · rw [hprepare]
        exact .answered _ (ended_afterPrepare hne) (afterPrepare_impossible (by rw [hprepare]))
      · rw [hout]
        exact .claimed hfree hset
  | claimed =>
      unfold Call.advance
      dsimp only
      rcases markRunning_cases db journal request.operationId fault with
        ⟨hok, row, hrow, hstate, hset⟩ | ⟨⟨failure, herr, hfail⟩, hsame⟩
      · generalize Journal.markRunning db journal request.operationId fault = r at hok hset
        obtain ⟨out, journal'⟩ := r
        obtain rfl : out = .ok () := hok
        exact .started row hrow hstate hset
      · generalize Journal.markRunning db journal request.operationId fault = r at herr hsame
        obtain ⟨out, journal'⟩ := r
        obtain rfl : out = .error failure := herr
        exact .notStarted failure hfail hsame
  | started => exact .invoked
  | fulfilled value =>
      unfold Call.advance
      dsimp only
      cases hwire : Live.wireResult value with
      | error thrown =>
          exact .notCommitted value _ (by simp [Failure.Impossible]) (fun _ => rfl) fun haccepted =>
            absurd (hwire.symm.trans haccepted) (by simp)
      | ok wire =>
          obtain rfl := wireResult_eq hwire
          dsimp only
          rcases markCommitted_cases db journal request.operationId wire fault with
            ⟨encoded, row, hencoded, hfault, hok, hrow, hstate, hset⟩ |
              ⟨failure, herr, hfail, hsame, hwhy⟩
          · generalize Journal.markCommitted db journal request.operationId wire fault = r
              at hok hset
            obtain ⟨out, journal'⟩ := r
            obtain rfl : out = .ok () := hok
            exact .committed wire encoded row hwire hfault hencoded hrow hstate hset
          · generalize Journal.markCommitted db journal request.operationId wire fault = r
              at herr hsame
            obtain ⟨out, journal'⟩ := r
            obtain rfl : out = .error failure := herr
            exact .notCommitted wire failure hfail hsame fun _ => hwhy
  | catching failure =>
      unfold Call.advance
      dsimp only
      cases hserialize : serializeError failure.thrown with
      | none => exact .notFailed failure _ (by simp [Failure.Impossible]) fun _ => rfl
      | some error =>
          dsimp only
          rcases markFailed_cases db journal request.operationId error fault with
            ⟨hok, row, hrow, hstate, hset⟩ | ⟨⟨failure', herr, hfail⟩, hsame⟩
          · generalize Journal.markFailed db journal request.operationId error fault = r
              at hok hset
            obtain ⟨out, journal'⟩ := r
            obtain rfl : out = .ok () := hok
            exact .failed failure _ row hrow hstate hset
          · generalize Journal.markFailed db journal request.operationId error fault = r
              at herr hsame
            obtain ⟨out, journal'⟩ := r
            obtain rfl : out = .error failure' := herr
            exact .notFailed failure failure' hfail hsame
  | awaiting => exact .idle _ (.inr rfl)
  | returned outcome => exact .idle _ (.inl rfl)
  | threw failure => exact .idle _ (.inl rfl)
  | crashed => exact .idle _ (.inl rfl)

theorem SetRow.rowChange {journal journal' : Journal} {key : JsString} {row : Row}
    (hset : SetRow journal journal' key row) (h : RowChange (journal.find? key) (some row))
    (k : JsString) : RowChange (journal.find? k) (journal'.find? k) := by
  rw [hset k]
  split
  · rename_i hk; rw [hk]; exact h
  · exact .same _

theorem SameRows.rowChange {journal journal' : Journal} (hsame : SameRows journal journal')
    (k : JsString) : RowChange (journal.find? k) (journal'.find? k) := by
  rw [hsame k]
  exact .same _

/-- A step of `execute` moves every row along its life. -/
theorem CallStep.rowChange {journal journal' : Journal} {request : OperationRequest}
    {fault : Option JsError} {phase phase' : Phase}
    (h : CallStep db journal request fault phase phase' journal') (k : JsString) :
    RowChange (journal.find? k) (journal'.find? k) := by
  cases h with
  | idle | answered | invoked => exact .same _
  | claimed hfree hset => exact hset.rowChange (hfree ▸ .inserted _ _) k
  | started row hrow hstate hset => exact hset.rowChange (hrow ▸ .started row hstate) k
  | committed value encoded row haccepted hfault hencoded hrow hstate hset =>
      exact hset.rowChange (hrow ▸ .committed row _ hstate) k
  | failed failure encoded row hrow hstate hset =>
      exact hset.rowChange (hrow ▸ .failed row _ hstate) k
  | notStarted failure hfail hsame => exact hsame.rowChange k
  | notCommitted value failure hfail hsame hwhy => exact hsame.rowChange k
  | notFailed failure failure' hfail hsame => exact hsame.rowChange k

theorem prepare_rowChange (journal : Journal) (request : OperationRequest)
    (fault : Option JsError) (k : JsString) :
    RowChange (journal.find? k) ((Journal.prepare db journal request fault).2.find? k) := by
  rcases prepare_cases db journal request fault with ⟨outcome, h, -⟩ | ⟨hfree, -, hset⟩
  · rw [h]; exact .same _
  · exact SetRow.rowChange hset (hfree ▸ .inserted _ _) k

theorem markRunning_rowChange (journal : Journal) (operationId : JsString)
    (fault : Option JsError) (k : JsString) :
    RowChange (journal.find? k) ((Journal.markRunning db journal operationId fault).2.find? k) := by
  rcases markRunning_cases db journal operationId fault with
    ⟨-, row, hrow, hstate, hset⟩ | ⟨-, hsame⟩
  · exact SetRow.rowChange hset (hrow ▸ .started row hstate) k
  · exact SameRows.rowChange hsame k

end

end Benchhand.Operations
