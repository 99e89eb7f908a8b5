/-
Benchhand.Operations.ReplayTheorems — what a replay returns.

The executing call returns the value its effect fulfilled with; every later
replay, and `get`, return what `JSON.parse` makes of the stored text. That is
the tree that `JSON.stringify` was told, in every run after the commit. So they
are equal exactly when the caller finds in the value what `JSON.stringify` is
told (`replay_law`). Neither the check that accepts the value nor the commit
sees to that: `every` skips holes, -0 is finite, and nobody looks at the
prototype of an array, at its named properties, at symbol keys, or at what a
`toJSON` or a getter gives the next reader. For values that show every reader
the same the law is about the value alone: nothing but dense arrays and objects
of `Object.prototype`, and no -0 where it is told from 0.
-/
import Benchhand.Operations.SystemTheorems

namespace Benchhand.Operations

open Benchhand.Text Benchhand.Js Benchhand.Contracts Benchhand.Store

variable {db : SqliteText}

/-- Structural equality of what the executing call returns and what is read
back, with numbers compared by `same`. -/
def SameStructure (same : Number → Number → Prop) (a : Live) (b : Graph) : Prop :=
  ∃ t u, a.Finds t ∧ (Live.ofGraph b).Finds u ∧ t.Equal same u

/-- In every run in which a call commits the value, everything that is returned
for it afterwards equals what the call returns: the record `get` gives, and the
result of every call with the same input, at any later point of any run. -/
def ReplaysEqual (db : SqliteText) (same : Number → Number → Prop) (value : Live) : Prop :=
  ∀ (actions : List Action) (i : Nat) (c : Call) (wire : Live) (more : List Action),
    ((System.init .empty).run db actions).calls[i]? = some c →
    c.phase = .fulfilled value → c.request.operationId ≠ [] →
    (Call.advance db ((System.init .empty).run db actions).journal c.request c.phase none).1
      = .returned (.executed wire) →
    let later := (((System.init .empty).run db actions).step db (.advance i none)).run db more
    (∃ record result, Journal.read db later.journal c.request.operationId = .ok (some record) ∧
      record.result = some result ∧ SameStructure same wire result) ∧
    ∀ request row, db.text request.operationId = db.text c.request.operationId →
      later.journal.find? (db.text request.operationId) = some row →
      row.kind = request.kind → row.fingerprint = request.fingerprint →
      ∃ result, Call.advance db later.journal request .called none
        = (.returned (.replayedCommitted result), later.journal) ∧ SameStructure same wire result

/-! ## The stored text -/

/-- What is stored is the text of what `JSON.stringify` is told. -/
theorem told_of_encodeResult {value : Live} {encoded : Option JsString}
    (h : encodeResult db value = .ok encoded) :
    ∃ told, value.told = .ok told ∧ encoded = told.map Node.text := by
  unfold encodeResult Live.stringify at h
  cases htold : value.told with
  | error thrown => rw [htold] at h; exact absurd h (by simp [bind, Except.bind])
  | ok told =>
      rw [htold] at h
      refine ⟨told, rfl, ?_⟩
      cases told with
      | some t =>
          have hbound : some (db.text t.text) = encoded := Except.ok.inj h
          rw [← hbound, db.keeps _ (wellFormed_text t), Option.map_some]
      | none =>
          have hbound : (db.bind none).mapError Failure.database = .ok encoded := h
          unfold SqliteText.bind at hbound
          cases herror : db.undefinedError with
          | some e => rw [herror] at hbound; exact absurd hbound (by simp [Except.mapError])
          | none =>
              rw [herror] at hbound
              exact (Except.ok.inj hbound).symm

/-- What is read from the text of a tree is that tree, if it was written by
`JSON.stringify`. -/
theorem readResult_text {t : Tree} (h : t.Written) :
    ∃ result, readResult (some t.text) = .ok (some result) ∧ (Live.ofGraph result).Finds t := by
  obtain ⟨wire, hwire, hd⟩ := wireResult_of_denotes
    (Graph.ofTree_denotes (keysNodup_wire h.keysNodup)) (allFinite_wire t)
  refine ⟨wire, ?_, ?_⟩
  · simp [readResult, Json.parse, parseTree_text, hwire, Except.map]
  · rw [h.wire_eq] at hwire hd
    exact finds_of_denotes (ordinary_wireResult (ordinary_ofTree t) hwire) hd

/-- A row that a call has committed, with what `JSON.stringify` was told. -/
structure CommittedRow (row : Row) (told : Option Tree) : Prop where
  state_eq : row.state = .committed
  version_nonneg : 0 ≤ row.version
  result_eq : row.resultJson = told.map Node.text
  error_eq : row.errorJson = none

/-- What is read of such a row. -/
def ResultOf (told : Option Tree) (result : Option Graph) : Prop :=
  (told = none ∧ result = none) ∨
  ∃ t g, told = some t ∧ result = some g ∧ (Live.ofGraph g).Finds t

theorem record_of_committed {row : Row} {told : Option Tree} {key : JsString}
    (h : CommittedRow row told) (hwritten : ∀ t, told = some t → t.Written) (hkey : key ≠ []) :
    ∃ record, row.record key = .ok record ∧ record.kind = row.kind ∧
      record.fingerprint = row.fingerprint ∧ record.state = .committed ∧
      ResultOf told record.result := by
  obtain ⟨result, hread, hresult⟩ : ∃ result, readResult (told.map Node.text) = .ok result ∧
      ResultOf told result := by
    cases told with
    | none => exact ⟨none, rfl, .inl ⟨rfl, rfl⟩⟩
    | some t =>
        obtain ⟨g, hread, hfinds⟩ := readResult_text (hwritten t rfl)
        exact ⟨some g, hread, .inr ⟨t, g, rfl, rfl, hfinds⟩⟩
  have hid : parseEntityId "operation" key = .ok key := by
    simp [parseEntityId, hkey]
  have hversion : parseEntityVersion row.version = .ok row.version.toNat := by
    simp [parseEntityVersion, h.version_nonneg]
  refine ⟨⟨key, row.kind, row.fingerprint, row.state, row.version.toNat, result, none⟩, ?_, rfl,
    rfl, h.state_eq, hresult⟩
  simp [Row.record, hid, hversion, h.result_eq, hread, h.error_eq, readError, bind,
    Except.bind, pure, Except.pure]

theorem read_of_committed {journal : Journal} {operationId : JsString} {row : Row}
    {told : Option Tree} (hrow : journal.find? (db.text operationId) = some row)
    (h : CommittedRow row told) (hwritten : ∀ t, told = some t → t.Written)
    (hid : operationId ≠ []) :
    ∃ record, Journal.read db journal operationId = .ok (some record) ∧
      ResultOf told record.result := by
  obtain ⟨record, hrecord, -, -, -, hresult⟩ :=
    record_of_committed h hwritten (db.ne_nil _ hid)
  exact ⟨record, by simp [Journal.read, hrow, hrecord], hresult⟩

/-- A call that finds the committed row with its input returns what is read. -/
theorem advance_of_committed {journal : Journal} (request : OperationRequest) {row : Row}
    {t : Tree} (hrow : journal.find? (db.text request.operationId) = some row)
    (h : CommittedRow row (some t)) (hwritten : t.Written)
    (hid : db.text request.operationId ≠ []) (hkind : row.kind = request.kind)
    (hfingerprint : row.fingerprint = request.fingerprint) :
    ∃ result, Call.advance db journal request .called none
      = (.returned (.replayedCommitted result), journal) ∧ (Live.ofGraph result).Finds t := by
  obtain ⟨record, hrecord, hk, hf, hstate, hresult⟩ :=
    record_of_committed h (fun u hu => Option.some.inj hu ▸ hwritten) hid
  obtain ⟨hnone, -⟩ | ⟨u, result, hu, hsome, hfinds⟩ := hresult
  · exact absurd hnone (by simp)
  obtain rfl := Option.some.inj hu
  refine ⟨result, ?_, hfinds⟩
  have hread : Journal.read db journal request.operationId = .ok (some record) := by
    simp [Journal.read, hrow, hrecord]
  simp [Call.advance, Journal.prepare, hread, hk, hf, hkind, hfingerprint, hstate, afterPrepare,
    replayRecord, hsome]

/-! ## After the commit -/

/-- The commit of a value stores what `JSON.stringify` is told, and the row
stays. -/
theorem committedRow_of_commit {s : System} {i : Nat} {c : Call} {value wire : Live}
    (hcounted : RowsCounted s) (hc : s.calls[i]? = some c) (hphase : c.phase = .fulfilled value)
    (hreturned : (Call.advance db s.journal c.request c.phase none).1 = .returned (.executed wire))
    (more : List Action) :
    wire = value ∧ ∃ told row, value.told = .ok told ∧
      ((s.step db (.advance i none)).run db more).journal.find? (db.text c.request.operationId)
        = some row ∧ CommittedRow row told := by
  have hstep := callStep_advance db s.journal c.request c.phase none
  have hjournal : (s.step db (.advance i none)).journal
      = (Call.advance db s.journal c.request c.phase none).2 := by
    simp only [System.step, hc, System.advance, hphase]
    rfl
  rw [hreturned, hphase] at hstep
  rw [hphase] at hjournal
  generalize (Call.advance db s.journal c.request (.fulfilled value) none).2 = journal' at *
  cases hstep with
  | committed _ encoded row haccepted hfault hencoded hrow hstate hset =>
      obtain ⟨told, htold, rfl⟩ := told_of_encodeResult hencoded
      have hversion : row.version = 1 := by
        have := hcounted _ row hrow
        simpa only [Row.Counted, hstate] using this
      have hfind := hset (db.text c.request.operationId)
      rw [if_pos rfl, ← hjournal] at hfind
      obtain ⟨row', hrow', hev⟩ := run_evolves db more hfind
      rw [hev.of_ended ⟨by simp, by simp⟩] at hrow'
      exact ⟨rfl, told, _, htold, hrow', rfl, by simp [hversion], rfl, rfl⟩

/-- What the caller finds in the value is what `JSON.stringify` is told. -/
def ToldAsFound (same : Number → Number → Prop) (value : Live) : Prop :=
  ∃ t u, value.Finds t ∧ value.told = .ok (some u) ∧ t.Equal same u

/-- A value of which `JSON.stringify` is told what the caller finds is replayed
as it was. -/
theorem replaysEqual_of_told {same : Number → Number → Prop} {value : Live}
    (htold : ToldAsFound same value) : ReplaysEqual db same value := by
  obtain ⟨t, u, hfinds, htold, hequal⟩ := htold
  intro actions i c wire more hc hphase hid hreturned
  obtain ⟨rfl, told, row, htold', hrow, hcommitted⟩ :=
    committedRow_of_commit (rowsCounted_run db actions) hc hphase hreturned more
  obtain rfl := Except.ok.inj (htold'.symm.trans htold)
  have hwritten : u.Written := told_written htold
  constructor
  · obtain ⟨record, hread, hresult⟩ := read_of_committed hrow hcommitted
      (fun w hw => Option.some.inj hw ▸ hwritten) hid
    obtain ⟨hnone, -⟩ | ⟨w, result, hw, hsome, hfound⟩ := hresult
    · exact absurd hnone (by simp)
    obtain rfl := Option.some.inj hw
    exact ⟨record, result, hread, hsome, t, u, hfinds, hfound, hequal⟩
  · intro request row' hkey hrow' hkind hfingerprint
    rw [hkey] at hrow'
    obtain rfl := Option.some.inj (hrow.symm.trans hrow')
    obtain ⟨result, hadvance, hfound⟩ := advance_of_committed request
      (hkey ▸ hrow) hcommitted hwritten (hkey ▸ db.ne_nil _ hid) hkind hfingerprint
    exact ⟨result, hadvance, t, u, hfinds, hfound, hequal⟩

/-! ## A run that commits a value -/

/-- The call that the value is committed by. -/
def commitRequest : OperationRequest := ⟨js "op", js "kind", js "input"⟩

/-- A call whose effect fulfils with the value, up to its commit. -/
def runToCommit (value : Live) : List Action :=
  [.execute commitRequest, .advance 0 none, .advance 0 none, .advance 0 none,
    .settle 0 (.fulfilled value)]

theorem runToCommit_state (db : SqliteText) (value : Live) :
    ((System.init .empty).run db (runToCommit value)).calls[0]?
      = some ⟨commitRequest, .fulfilled value⟩ ∧
    ∃ row, ((System.init .empty).run db (runToCommit value)).journal.find?
      (db.text commitRequest.operationId) = some row ∧ row.state = .running := by
  have hprepare : Journal.prepare db .empty commitRequest none
      = (.ok .execute, ⟨[(db.text commitRequest.operationId, acceptedRow db commitRequest)],
          List.nodup_singleton _⟩) := rfl
  constructor
  · simp [System.run, runToCommit, System.step, System.init, System.advance, Call.advance,
      System.setPhase, System.setJournal, hprepare, afterPrepare, Journal.markRunning,
      Table.updateKey, Table.updateWhere, acceptedRow, System.logged, Settled.phase]
  · simp [System.run, runToCommit, System.step, System.init, System.advance, Call.advance,
      System.setPhase, System.setJournal, hprepare, afterPrepare, Journal.markRunning,
      Table.updateKey, Table.updateWhere, acceptedRow, System.logged, Settled.phase, Table.find?]

/-- A running row takes an accepted value that is encoded. -/
theorem advance_commits {journal : Journal} {request : OperationRequest} {row : Row}
    {value : Live} {encoded : Option JsString}
    (hrow : journal.find? (db.text request.operationId) = some row) (hstate : row.state = .running)
    (haccepted : Live.wireResult value = .ok value)
    (hencoded : encodeResult db value = .ok encoded) :
    (Call.advance db journal request (.fulfilled value) none).1 = .returned (.executed value) := by
  have hchanges := Table.changes_updateKey journal (db.text request.operationId)
    (fun row => row.state == .running)
    (fun row => { row with
      state := .committed
      resultJson := encoded
      errorJson := none
      version := row.version + 1 })
  simp only [hrow, Option.any_some, hstate, BEq.rfl, if_true] at hchanges
  simp [Call.advance, haccepted, Journal.markCommitted, hencoded, hchanges]

/-- An accepted value that is committed and replayed as it was is written as it
is found. -/
theorem told_of_replaysEqual {same : Number → Number → Prop} {value : Live}
    {encoded : Option JsString} (haccepted : Live.wireResult value = .ok value)
    (hencoded : encodeResult db value = .ok encoded) (hlaw : ReplaysEqual db same value) :
    ToldAsFound same value := by
  obtain ⟨hcall, row, hrow, hstate⟩ := runToCommit_state db value
  have hid : commitRequest.operationId ≠ [] := by decide
  have hreturned := advance_commits hrow hstate haccepted hencoded
  obtain ⟨⟨record, result, hread, hresult, t, u, hfinds, hfound, hequal⟩, -⟩ :=
    hlaw (runToCommit value) 0 _ value [] hcall rfl hid hreturned
  obtain ⟨-, told, row', htold, hrow', hcommitted⟩ :=
    committedRow_of_commit (rowsCounted_run db _) hcall rfl hreturned []
  have hwritten : ∀ w, told = some w → w.Written := fun w hw => told_written (hw ▸ htold)
  obtain ⟨record', hread', hresult'⟩ := read_of_committed hrow' hcommitted hwritten hid
  obtain rfl := Option.some.inj (Except.ok.inj (hread.symm.trans hread'))
  obtain ⟨-, hnone⟩ | ⟨w, g, rfl, hsome, hfound'⟩ := hresult'
  · exact absurd (hresult.symm.trans hnone) (by simp)
  obtain rfl := Option.some.inj (hresult.symm.trans hsome)
  obtain rfl := hfound.unique hfound'
  exact ⟨t, u, hfinds, htold, hequal⟩

/-- The commit of the value cannot go through: `JSON.stringify` throws, or the
driver refuses what it gives. -/
def Uncommitted (db : SqliteText) (value : Live) : Prop :=
  ∀ encoded, encodeResult db value ≠ .ok encoded

theorem replaysEqual_iff (db : SqliteText) (same : Number → Number → Prop) {value : Live}
    (haccepted : Live.wireResult value = .ok value) :
    ReplaysEqual db same value ↔ Uncommitted db value ∨ ToldAsFound same value := by
  constructor
  · intro hlaw
    by_cases hencoded : ∃ encoded, encodeResult db value = .ok encoded
    · obtain ⟨encoded, hencoded⟩ := hencoded
      exact .inr (told_of_replaysEqual haccepted hencoded hlaw)
    · exact .inl fun encoded h => hencoded ⟨encoded, h⟩
  · rintro (huncommitted | htold)
    · intro actions i c wire more hc hphase hid hreturned
      have hstep := callStep_advance db ((System.init .empty).run db actions).journal c.request
        c.phase none
      rw [hreturned, hphase] at hstep
      cases hstep with
      | committed _ encoded row _ _ hencoded => exact absurd hencoded (huncommitted encoded)
    · exact replaysEqual_of_told htold

/-- Of a value that shows every reader the same, `JSON.stringify` is told what
the caller finds when that has no hole and its numbers are kept. -/
theorem toldAsFound_iff {same : Number → Number → Prop} {value wire : Live} (hinert : value.Inert)
    (haccepted : Live.wireResult value = .ok wire) :
    ToldAsFound same value ↔ ∃ t, value.Finds t ∧ t.NoHoles ∧ KeptBy same t := by
  constructor
  · rintro ⟨t, u, hfinds, htold, hequal⟩
    obtain rfl := Option.some.inj (Except.ok.inj ((told_of_finds hinert hfinds).symm.trans htold))
    exact ⟨t, hfinds, (equal_wire_iff (allFinite_of_accepted hinert haccepted hfinds)).mp hequal⟩
  · rintro ⟨t, hfinds, hkept⟩
    exact ⟨t, t.wire, hfinds, told_of_finds hinert hfinds,
      (equal_wire_iff (allFinite_of_accepted hinert haccepted hfinds)).mpr hkept⟩

theorem committed_of_told (db : SqliteText) {value : Live} {t : Tree}
    (htold : value.told = .ok (some t)) : ¬ Uncommitted db value := by
  intro h
  refine h (some (db.text t.text)) ?_
  rw [encodeResult, Live.stringify, htold]
  rfl

/-- A value that `parseResultEnvelope` accepts is replayed as it was exactly when
the caller finds in it what `JSON.stringify` is told, or the commit throws. Where
every reader is shown the same, that is when there is nothing in it but arrays
without holes and objects of `Object.prototype`, and no -0; where -0 equals 0,
-0 may be there. -/
theorem replay_law (db : SqliteText) (value wire : Live) (h : Live.wireResult value = .ok wire) :
    (∀ same, ReplaysEqual db same value ↔ Uncommitted db value ∨ ToldAsFound same value) ∧
    (value.Inert →
      (ReplaysEqual db (· = ·) value ↔ ∃ t, value.Finds t ∧ t.NoHoles ∧ t.NoNegZero) ∧
      (ReplaysEqual db (fun m n => m.strictEquals n = true) value ↔
        ∃ t, value.Finds t ∧ t.NoHoles)) := by
  have hwire : Live.wireResult value = .ok value := by
    rw [wireResult_eq h] at h
    exact h
  refine ⟨fun same => replaysEqual_iff db same hwire, fun hinert => ?_⟩
  obtain ⟨t, htold⟩ := told_of_accepted hinert h
  have hlaw : ∀ same, ReplaysEqual db same value ↔
      ∃ t, value.Finds t ∧ t.NoHoles ∧ KeptBy same t := by
    intro same
    rw [replaysEqual_iff db same hwire, or_iff_right (committed_of_told db htold),
      toldAsFound_iff hinert h]
  constructor
  · rw [hlaw]
    simp only [keptBy_eq_iff]
  · rw [hlaw]
    simp only [keptBy_strictEquals, and_true]

/-- `[{ "name": "ok" }, null]`. -/
def recordsGraph : Graph :=
  ⟨⟨[.plain .objectPrototype ⟨[(js "name", .string (js "ok"))], by simp⟩,
    .array [some (.object 0), some .null]], by simp [Obj.refs, Value.refs]⟩,
    .object 1, by simp [Value.refs]⟩

theorem recordsGraph_denotes : recordsGraph.Denotes
    (.array (.item (.object (.prop (js "name") (.string (js "ok")) .noProps))
      (.item .null .noItems))) := by
  simp [Graph.Denotes, Denotes, recordsGraph]

theorem recordsGraph_replayed : ReplaysEqual .replacing (· = ·) (.ofGraph recordsGraph) := by
  obtain ⟨wire, hwire, -⟩ := wireResult_of_denotes recordsGraph_denotes (by simp [Node.AllFinite])
  have hordinary : recordsGraph.heap.Ordinary := by
    simp [Heap.Ordinary, recordsGraph]
  refine ((replay_law .replacing _ _ (wireResult_ofGraph hwire)).2 (inert_ofGraph _)).1.mpr
    ⟨_, finds_of_denotes hordinary recordsGraph_denotes, ?_⟩
  simp [Node.NoHoles, Node.NoNegZero]

/-- `[, 1]`: an array whose first element is a hole. -/
def holeGraph : Graph :=
  ⟨⟨[.array [none, some (.number (.finite ⟨false, 2 ^ 52, -52, by decide⟩))]],
    by decide⟩, .object 0, by decide⟩

theorem holeGraph_denotes : holeGraph.Denotes (.array (.hole (.item
    (.number (.finite ⟨false, 2 ^ 52, -52, by decide⟩)) .noItems))) := by
  simp [Graph.Denotes, Denotes, holeGraph]

/-- The array with a hole is accepted and is not what a replay returns, with
either equality of numbers. -/
theorem holeGraph_not_replayed :
    (∃ wire, Live.wireResult (.ofGraph holeGraph) = .ok wire) ∧
    ¬ ReplaysEqual .replacing (· = ·) (.ofGraph holeGraph) ∧
    ¬ ReplaysEqual .replacing (fun m n => m.strictEquals n = true) (.ofGraph holeGraph) := by
  obtain ⟨wire, hwire, -⟩ := wireResult_of_denotes holeGraph_denotes
    (by simp [Node.AllFinite, Number.isFinite])
  have haccepted := wireResult_ofGraph hwire
  have hfinds : (Live.ofGraph holeGraph).Finds (.array (.hole (.item
      (.number (.finite ⟨false, 2 ^ 52, -52, by decide⟩)) .noItems))) :=
    finds_of_denotes (by simp [Heap.Ordinary, holeGraph]) holeGraph_denotes
  have hnot : ∀ same, ¬ ReplaysEqual .replacing same (.ofGraph holeGraph) := by
    intro same hlaw
    have htold := told_of_finds (inert_ofGraph holeGraph) hfinds
    rw [replaysEqual_iff _ same haccepted, or_iff_right (committed_of_told _ htold),
      toldAsFound_iff (inert_ofGraph holeGraph) haccepted] at hlaw
    obtain ⟨t, hfinds', hnoholes, -⟩ := hlaw
    obtain rfl := hfinds.unique hfinds'
    exact absurd hnoholes (by simp [Node.NoHoles])
  exact ⟨⟨_, haccepted⟩, hnot _, hnot _⟩

end Benchhand.Operations
