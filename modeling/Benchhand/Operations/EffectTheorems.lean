/-
Benchhand.Operations.EffectTheorems — what a row says about its effect.

Over every run, of any number of calls on any number of connections, with
failing statements, crashes, restarts and reconciliations in between:

* an effect is invoked at most once for an operation, and a call with other
  input than the stored row does nothing (`effects_at_most_once`);
* the columns of every row agree with its state and an ended row is final, in
  every run in which what is committed has a text (`journal_rows_valid`);
* a failed row means that the effect threw or rejected, in every run in which
  the results of running rows are wire values and nothing in their commit
  throws (`failed_rows_rejected`).

Both conditions are needed. `JSON.stringify` gives undefined for a result whose
`toJSON` does, and a driver that binds NULL for it leaves a committed row that
no call can replay (`unwritten_result_committed`). The effect, the check of its
result and the commit share one try block, and its catch block cannot tell them
apart: in the run of `fulfilled_effect_recorded_failed` an effect that returned
undefined is on record as failed.
-/
import Benchhand.Operations.SystemTheorems

namespace Benchhand.Operations

open Benchhand.Text Benchhand.Js Benchhand.Contracts Benchhand.Store

variable {db : SqliteText}

/-! ## Calls over a run -/

theorem getElem?_setPhase (s : System) (i j : Nat) (phase : Phase) :
    (s.setPhase i phase).calls[j]?
      = if i = j then s.calls[j]?.map fun c => { c with phase } else s.calls[j]? := by
  rw [System.setPhase, List.getElem?_modify]
  split <;> simp

/-- A step never goes back to the beginning. -/
theorem CallStep.ne_called {journal journal' : Journal} {request : OperationRequest}
    {fault : Option JsError} {phase phase' : Phase}
    (h : CallStep db journal request fault phase phase' journal') : phase' ≠ .called := by
  cases h with
  | idle phase h => rintro rfl; simp [Phase.ended] at h
  | answered _ h => rintro rfl; simp [Phase.ended] at h
  | claimed | started | notStarted | invoked | committed | notCommitted | failed | notFailed =>
      simp

/-- The calls that are there stay, each with its request, and none goes back
to the beginning. -/
theorem Moves.calls {s s' : System} {a : Action} (hmoves : Moves db s a s') {i : Nat} {c : Call}
    (hc : s.calls[i]? = some c) :
    ∃ c', s'.calls[i]? = some c' ∧ c'.request = c.request ∧
      (c'.phase = .called → c.phase = .called) := by
  have hset : ∀ (t : System) (j : Nat) (phase : Phase), t.calls = s.calls → phase ≠ .called →
      ∃ c', (t.setPhase j phase).calls[i]? = some c' ∧ c'.request = c.request ∧
        (c'.phase = .called → c.phase = .called) := by
    intro t j phase ht hphase
    rw [getElem?_setPhase, ht, hc]
    split
    · exact ⟨_, rfl, rfl, fun h => absurd h hphase⟩
    · exact ⟨c, rfl, rfl, id⟩
  cases hmoves with
  | none => exact ⟨c, hc, rfl, id⟩
  | spawned request =>
      refine ⟨c, ?_, rfl, id⟩
      rw [List.getElem?_append_left (List.getElem?_eq_some_iff.mp hc).1, hc]
  | stepped j d fault phase journal hd hphase h => exact hset (s.setJournal journal) j phase rfl h.ne_called
  | invoked j d fault hd hphase => exact hset s j _ rfl (by simp)
  | settled j d outcome hd hphase =>
      exact hset s j _ rfl (by cases outcome <;> simp [Settled.phase])
  | crashed j d hd => exact hset s j _ rfl (by simp)
  | statement _ journal h hended => exact ⟨c, hc, rfl, id⟩

/-! ## At most once -/

/-- An event is of a call that has begun. -/
def LogOfCalls (s : System) : Prop :=
  ∀ e ∈ s.log, ∃ c, s.calls[e.call]? = some c ∧ c.phase ≠ .called

theorem LogOfCalls.moves {s s' : System} {a : Action} (hmoves : Moves db s a s') (h : LogOfCalls s) :
    LogOfCalls s' := by
  have hold : ∀ e ∈ s.log, ∃ c, s'.calls[e.call]? = some c ∧ c.phase ≠ .called := by
    intro e he
    obtain ⟨c, hc, hphase⟩ := h e he
    obtain ⟨c', hc', -, hcalled⟩ := hmoves.calls hc
    exact ⟨c', hc', fun h => hphase (hcalled h)⟩
  have hnew : ∀ (i : Nat) (c : Call) (phase : Phase) (kind : EventKind), s.calls[i]? = some c →
      phase ≠ .called → s' = (s.setPhase i phase).logged i c kind → LogOfCalls s' := by
    rintro i c phase kind hc hphase hs' e he
    rw [hs'] at he
    rcases List.mem_append.mp he with he | he
    · exact hold e he
    · obtain rfl := List.mem_singleton.mp he
      refine ⟨{ c with phase }, ?_, hphase⟩
      rw [hs', logged_calls, getElem?_setPhase, if_pos rfl, hc, Option.map_some]
  cases hmoves with
  | none | spawned | stepped | crashed | statement => exact hold
  | invoked i c fault hc hphase => exact hnew i c _ _ hc (by simp) rfl
  | settled i c outcome hc hphase =>
      exact hnew i c _ _ hc (by cases outcome <;> simp [Settled.phase]) rfl

/-- The call has ended, or is about to find a stored row with other input; its
effect has not been invoked. -/
structure Barred (db : SqliteText) (s : System) (i : Nat) : Prop where
  call : ∃ c, s.calls[i]? = some c ∧ (c.phase.ended = true ∨ (c.phase = .called ∧
    ∃ row, s.journal.find? (db.text c.request.operationId) = some row ∧
      (row.kind ≠ c.request.kind ∨ row.fingerprint ≠ c.request.fingerprint)))
  log : ∀ e ∈ s.log, ¬ (e.call = i ∧ e.kind = .invoked)

/-- A step of a barred call ends it; it claims nothing and invokes nothing. -/
theorem CallStep.ended_of_barred {journal journal' : Journal} {request : OperationRequest}
    {fault : Option JsError} {phase phase' : Phase}
    (h : CallStep db journal request fault phase phase' journal')
    (hphase : phase.ended = true ∨ (phase = .called ∧
      journal.find? (db.text request.operationId) ≠ none)) : phase'.ended = true := by
  cases h with
  | idle phase h =>
      rcases hphase with hphase | ⟨rfl, -⟩
      · exact hphase
      · simp [Phase.ended] at h
  | answered _ h => exact h
  | claimed hfree hset =>
      rcases hphase with hphase | ⟨-, hrow⟩
      · exact absurd hphase (by simp [Phase.ended])
      · exact absurd hfree hrow
  | started | notStarted | invoked | committed | notCommitted | failed | notFailed =>
      simp [Phase.ended] at hphase

/-- What is barred once is barred for ever. -/
theorem Barred.moves {s s' : System} {a : Action} (hmoves : Moves db s a s') {i : Nat} (h : Barred db s i) :
    Barred db s' i := by
  obtain ⟨⟨c, hc, hbarred⟩, hlog⟩ := h
  -- another call's move, or none: the call is where it was, the row keeps its input
  have hother : s'.calls[i]? = some c → (∀ e ∈ s'.log, ¬ (e.call = i ∧ e.kind = .invoked)) →
      Barred db s' i := by
    intro hc' hlog'
    refine ⟨⟨c, hc', hbarred.imp_right fun ⟨hcalled, row, hrow, hinput⟩ => ⟨hcalled, ?_⟩⟩, hlog'⟩
    obtain ⟨row', hrow', hev⟩ := hmoves.evolves hrow
    exact ⟨row', hrow', by rwa [hev.kind_eq, hev.fingerprint_eq]⟩
  have hphase : c.phase.ended = true ∨ c.phase = .called := hbarred.imp_right And.left
  have hset : ∀ (t : System) (j : Nat) (d : Call) (phase : Phase), t.calls = s.calls →
      j ≠ i → (t.setPhase j phase).calls[i]? = some c := by
    intro t j d phase ht hj
    rw [getElem?_setPhase, if_neg hj, ht, hc]
  cases hmoves with
  | none => exact hother hc hlog
  | spawned request =>
      refine hother ?_ hlog
      rw [List.getElem?_append_left (List.getElem?_eq_some_iff.mp hc).1, hc]
  | statement _ journal hrow hended => exact hother hc hlog
  | stepped j d fault phase journal hd hstarted hstep =>
      by_cases hj : j = i
      · subst hj
        obtain rfl := Option.some.inj (hc.symm.trans hd)
        have hended : phase.ended = true := by
          rcases hbarred with hended | ⟨hcalled, row, hrow, -⟩
          · exact hstep.ended_of_barred (.inl hended)
          · exact hstep.ended_of_barred (.inr ⟨hcalled, by simp [hrow]⟩)
        refine ⟨⟨{ c with phase }, ?_, .inl hended⟩, hlog⟩
        rw [getElem?_setPhase, if_pos rfl, setJournal_calls, hc, Option.map_some]
      · exact hother (hset _ j d phase rfl hj) hlog
  | invoked j d fault hd hstarted =>
      by_cases hj : j = i
      · subst hj
        obtain rfl := Option.some.inj (hc.symm.trans hd)
        rw [hstarted] at hphase
        simp [Phase.ended] at hphase
      · refine hother (hset s j d _ rfl hj) fun e he => ?_
        rcases List.mem_append.mp he with he | he
        · exact hlog e he
        · obtain rfl := List.mem_singleton.mp he
          exact fun h => hj h.1
  | settled j d outcome hd hawaiting =>
      by_cases hj : j = i
      · subst hj
        obtain rfl := Option.some.inj (hc.symm.trans hd)
        rw [hawaiting] at hphase
        simp [Phase.ended] at hphase
      · refine hother (hset s j d _ rfl hj) fun e he => ?_
        rcases List.mem_append.mp he with he | he
        · exact hlog e he
        · obtain rfl := List.mem_singleton.mp he
          exact fun h => hj h.1
  | crashed j d hd =>
      by_cases hj : j = i
      · subst hj
        refine ⟨⟨{ c with phase := .crashed }, ?_, .inl rfl⟩, hlog⟩
        rw [getElem?_setPhase, if_pos rfl, hc, Option.map_some]
      · exact hother (hset s j d _ rfl hj) hlog

/-- The call an action is about. -/
def Action.call : Action → Option Nat
  | .advance i _ | .settle i _ | .crash i => some i
  | .execute _ | .prepare _ _ | .markRunning _ _ | .reconcileInterrupted _ => none

theorem advance_of_ended (journal : Journal) (request : OperationRequest) {phase : Phase}
    (h : phase.ended = true) (fault : Option JsError) :
    Call.advance db journal request phase fault = (phase, journal) := by
  cases phase <;> first | rfl | exact absurd h (by simp [Phase.ended])

/-- A barred call leaves the table alone. -/
theorem Barred.journal_eq {s : System} {i : Nat} (h : Barred db s i) {a : Action}
    (ha : a.call = some i) : (s.step db a).journal = s.journal := by
  obtain ⟨⟨c, hc, hbarred⟩, -⟩ := h
  cases a with
  | advance j fault =>
      obtain rfl := Option.some.inj ha
      have hjournal : (Call.advance db s.journal c.request c.phase fault).2 = s.journal := by
        rcases hbarred with hended | ⟨hcalled, row, hrow, hinput⟩
        · rw [advance_of_ended _ _ hended]
        · obtain ⟨failure, hprepare⟩ := prepare_mismatch hrow hinput fault
          rw [hcalled]
          simp only [Call.advance, hprepare]
      simp only [System.step, hc, System.advance]
      split <;> exact hjournal
  | settle j outcome =>
      obtain rfl := Option.some.inj ha
      simp only [System.step, hc]
      split <;> rfl
  | crash j =>
      obtain rfl := Option.some.inj ha
      simp only [System.step, hc]
      split <;> rfl
  | execute | prepare | markRunning | reconcileInterrupted => exact absurd ha (by simp [Action.call])

/-- At most one invocation for an operation, over every run; and a call that
finds a stored row with another kind or fingerprint invokes nothing, then or
later, and none of its steps changes the table. -/
theorem effects_at_most_once (db : SqliteText) (journal : Journal) (actions : List Action) :
    (∀ key, ((System.init journal).run db actions).count db key .invoked ≤ 1) ∧
    ∀ i c row, ((System.init journal).run db actions).calls[i]? = some c → c.phase = .called →
      ((System.init journal).run db actions).journal.find? (db.text c.request.operationId)
        = some row →
      (row.kind ≠ c.request.kind ∨ row.fingerprint ≠ c.request.fingerprint) →
      ∀ more : List Action,
        (∀ e ∈ (((System.init journal).run db actions).run db more).log,
          ¬ (e.call = i ∧ e.kind = .invoked)) ∧
        ∀ a : Action, a.call = some i →
          ((((System.init journal).run db actions).run db more).step db a).journal
            = (((System.init journal).run db actions).run db more).journal := by
  constructor
  · intro key
    have hticket := (budget_run db journal actions key).ticket
    have hrows : Journal.rowCount ((System.init journal).run db actions).journal key ≤ 1 := by
      unfold Journal.rowCount
      split <;> omega
    omega
  · intro i c row hc hcalled hrow hinput more
    have hlog : LogOfCalls ((System.init journal).run db actions) :=
      run_preserves (fun _ _ _ hmoves => LogOfCalls.moves hmoves) actions
        fun e he => absurd he List.not_mem_nil
    have hbarred : Barred db ((System.init journal).run db actions) i := by
      refine ⟨⟨c, hc, .inr ⟨hcalled, row, hrow, hinput⟩⟩, ?_⟩
      rintro e he ⟨rfl, -⟩
      obtain ⟨c', hc', hphase⟩ := hlog e he
      rw [hc] at hc'
      exact hphase (Option.some.inj hc' ▸ hcalled)
    have hafter : Barred db (((System.init journal).run db actions).run db more) i :=
      run_preserves (fun _ _ _ hmoves => Barred.moves hmoves) more hbarred
    exact ⟨hafter.log, fun a ha => hafter.journal_eq ha⟩

/-! ## Rows -/

/-- What a call has thrown or is about to. -/
def Phase.failure? : Phase → Option Failure
  | .catching failure | .threw failure => some failure
  | _ => none

theorem CallStep.not_impossible {journal journal' : Journal} {request : OperationRequest}
    {fault : Option JsError} {phase phase' : Phase}
    (h : CallStep db journal request fault phase phase' journal')
    (hvalid : ∀ k row, journal.find? k = some row → row.Valid)
    (hphase : ∀ f, phase.failure? = some f → ¬ f.Impossible) :
    ∀ f, phase'.failure? = some f → ¬ f.Impossible := by
  cases h with
  | idle => exact hphase
  | answered _ h himp =>
      intro f hf hbad
      have hthrew : phase' = .threw f := by
        cases phase' <;> simp_all [Phase.failure?, Phase.ended]
      obtain ⟨row, hrow, hnot⟩ := himp f hthrew hbad
      exact hnot (hvalid _ row hrow)
  | notStarted failure hfail hsame | notCommitted value failure hfail hsame hwhy
  | notFailed old failure hfail hsame =>
      intro f hf
      rwa [← Option.some.inj hf]
  | failed failure encoded row hrow hstate hset => exact hphase
  | claimed | started | invoked | committed => exact fun f hf => absurd hf (by simp [Phase.failure?])

/-- Rows are valid, and no call throws what valid rows rule out. -/
def SoundCalls (s : System) : Prop :=
  RowsValid s ∧ ∀ c ∈ s.calls, ∀ f, c.phase.failure? = some f → ¬ f.Impossible

theorem mem_setPhase {s : System} {i : Nat} {phase : Phase} {c : Call}
    (h : c ∈ (s.setPhase i phase).calls) : c ∈ s.calls ∨ c.phase = phase := by
  obtain ⟨j, hj⟩ := List.mem_iff_getElem?.mp h
  rw [getElem?_setPhase] at hj
  split at hj
  · obtain ⟨d, -, rfl⟩ := Option.map_eq_some_iff.mp hj
    exact .inr rfl
  · exact .inl (List.mem_of_getElem? hj)

theorem SoundCalls.moves {s s' : System} {a : Action} (hmoves : Moves db s a s')
    (hcond : CommitsEncoded db s a) (h : SoundCalls s) : SoundCalls s' := by
  refine ⟨h.1.moves hmoves hcond, ?_⟩
  have hset : ∀ (t : System) (j : Nat) (phase : Phase), t.calls = s.calls →
      (∀ f, phase.failure? = some f → ¬ f.Impossible) →
      ∀ c ∈ (t.setPhase j phase).calls, ∀ f, c.phase.failure? = some f → ¬ f.Impossible := by
    intro t j phase ht hphase c hc
    rcases mem_setPhase hc with hc | rfl
    · exact h.2 c (ht ▸ hc)
    · exact hphase
  cases hmoves with
  | none | statement => exact h.2
  | spawned request =>
      intro c hc
      rcases List.mem_append.mp hc with hc | hc
      · exact h.2 c hc
      · obtain rfl := List.mem_singleton.mp hc
        exact fun f hf => absurd hf (by simp [Phase.failure?])
  | stepped i c fault phase journal hc hphase hstep =>
      exact hset (s.setJournal journal) i phase rfl
        (hstep.not_impossible h.1 (h.2 c (List.mem_of_getElem? hc)))
  | invoked i c fault hc hphase => exact hset s i _ rfl (by simp [Phase.failure?])
  | settled i c outcome hc hphase =>
      refine hset s i _ rfl ?_
      cases outcome with
      | fulfilled value => simp [Settled.phase, Phase.failure?]
      | rejected thrown =>
          intro f hf
          rw [← Option.some.inj hf]
          simp [Failure.Impossible]
  | crashed i c hc => exact hset s i _ rfl (by simp [Phase.failure?])

/-- In every run in which what is committed has a text: the columns of every row
agree with its state, kind and fingerprint stay, a row that has ended stays as
it is, and no call throws for a committed row without a result or a failed row
without an error. -/
theorem journal_rows_valid (db : SqliteText) (actions : List Action)
    (hcond : RunMeets db (CommitsEncoded db) (.init .empty) actions) :
    (∀ key row, ((System.init .empty).run db actions).journal.find? key = some row → row.Valid) ∧
    (∀ more key row, ((System.init .empty).run db actions).journal.find? key = some row →
      ∃ row', (((System.init .empty).run db actions).run db more).journal.find? key = some row' ∧
        row'.kind = row.kind ∧ row'.fingerprint = row.fingerprint ∧
        (row.Ended → row' = row)) ∧
    ∀ c ∈ ((System.init .empty).run db actions).calls, ∀ id,
      c.phase ≠ .threw (.noResult id) ∧ c.phase ≠ .threw (.noError id) := by
  have hsound : SoundCalls ((System.init .empty).run db actions) :=
    run_preserves_of (fun _ _ _ hmoves hc h => SoundCalls.moves hmoves hc h) actions hcond
      ⟨rowsValid_init, fun c hc => absurd hc List.not_mem_nil⟩
  refine ⟨hsound.1, fun more key row hrow => ?_, fun c hc id => ⟨fun hphase => ?_, fun hphase => ?_⟩⟩
  · obtain ⟨row', hrow', hev⟩ := run_evolves db more hrow
    exact ⟨row', hrow', hev.kind_eq, hev.fingerprint_eq, hev.of_ended⟩
  · exact hsound.2 c hc (.noResult id) (by rw [hphase]; rfl) (.inl ⟨id, rfl⟩)
  · exact hsound.2 c hc (.noError id) (by rw [hphase]; rfl) (.inr ⟨id, rfl⟩)

/-- `null`. -/
def nullGraph : Graph := .scalar .null rfl

theorem null_accepted : Live.wireResult (.ofGraph nullGraph) = .ok (.ofGraph nullGraph) := by
  have hdenotes : nullGraph.Denotes .null := rfl
  obtain ⟨wire, hwire, -⟩ := wireResult_of_denotes hdenotes trivial
  exact wireResult_ofGraph hwire

theorem null_encoded : encodeResult .replacing (.ofGraph nullGraph) = .ok (some (js "null")) := by
  decide

/-- Two calls run to their ends: the first effect rejects, the second fulfils
with null. -/
def settledRun : List Action :=
  [.execute ⟨js "a", js "kind", js "input"⟩, .advance 0 none, .advance 0 none, .advance 0 none,
    .settle 0 (.rejected (.error (.error (js "disk full")))), .advance 0 none,
    .execute ⟨js "b", js "kind", js "input"⟩, .advance 1 none, .advance 1 none, .advance 1 none,
    .settle 1 (.fulfilled (.ofGraph nullGraph)), .advance 1 none]

def Phase.atCommit : Phase → Bool
  | .fulfilled _ => true
  | _ => false

theorem not_fulfilled {s : System} {i : Nat}
    (h : s.calls[i]?.any (fun c => c.phase.atCommit) = false) {c : Call} {value : Live}
    (hc : s.calls[i]? = some c) : c.phase ≠ .fulfilled value := by
  intro hvalue
  rw [hc, Option.any_some, hvalue] at h
  exact absurd h (by simp [Phase.atCommit])

/-- A committed result and a failed one, each in its column. -/
theorem settledRun_valid :
    ((System.init .empty).run .replacing settledRun).journal.find? (js "a") ≠ none ∧
    ((System.init .empty).run .replacing settledRun).journal.find? (js "b") ≠ none ∧
    ∀ key row, ((System.init .empty).run .replacing settledRun).journal.find? key = some row →
      row.Valid := by
  have hmeets : RunMeets .replacing (CommitsEncoded .replacing) (.init .empty) settledRun := by
    refine ⟨trivial, ?_, ?_, ?_, trivial, ?_, trivial, ?_, ?_, ?_, trivial, ?_, trivial⟩
    all_goals try exact fun c value row hc hvalue => absurd hvalue (not_fulfilled (by decide) hc)
    -- the commit of the second call
    intro c value row hc hvalue _ _ _ _
    obtain rfl := Option.some.inj hc
    obtain rfl := Phase.fulfilled.inj hvalue
    rw [null_encoded]
    simp
  exact ⟨by decide, by decide, (journal_rows_valid .replacing settledRun hmeets).1⟩

/-- An object with a `toJSON` that is not enumerable and gives undefined. -/
def unwritten : Live where
  objs := [⟨.object .objectPrototype .empty, .object .objectPrototype .empty,
    .object .objectPrototype .empty, some (.ok .undefined)⟩]
  closed := by decide
  root := .object 0
  root_lt := by decide

/-- A call whose effect fulfils with it, and a later call with the same input. -/
def unwrittenRun : List Action :=
  [.execute ⟨js "op", js "kind", js "input"⟩, .advance 0 none, .advance 0 none, .advance 0 none,
    .settle 0 (.fulfilled unwritten), .advance 0 none,
    .execute ⟨js "op", js "kind", js "input"⟩, .advance 1 none]

/-- The row is committed without a result, and the later call throws that it
has none. -/
theorem unwritten_result_committed :
    (((System.init .empty).run .replacing unwrittenRun).journal.find? (js "op")).map
      (fun row => (row.state, row.resultJson)) = some (.committed, none) ∧
    (((System.init .empty).run .replacing unwrittenRun).calls[1]?).map
      (fun c => c.phase.failure?) = some (some (.noResult (js "op"))) := by
  decide

/-! ## Failed rows -/

/-- The condition under which failed means failed: when the effect of a call
has fulfilled and its row is still running, the value is one
`parseResultEnvelope` accepts and nothing in `#markCommitted` throws, neither
`JSON.stringify` nor the update. -/
def CommitsAccepted (db : SqliteText) (s : System) : Action → Prop
  | .advance i fault => ∀ c value row, s.calls[i]? = some c → c.phase = .fulfilled value →
      s.journal.find? (db.text c.request.operationId) = some row → row.state = .running →
      Live.wireResult value = .ok value ∧ (∃ encoded, encodeResult db value = .ok encoded) ∧
        fault = none
  | _ => True

/-- The row was started before the phase was reached. -/
def Phase.begun : Phase → Bool
  | .started | .awaiting | .fulfilled _ | .catching _ => true
  | _ => false

/-- The operation has a row that is past accepted. -/
def Begun (s : System) (key : JsString) : Prop :=
  ∃ row, s.journal.find? key = some row ∧ row.state ≠ .accepted

theorem Begun.moves {s s' : System} {a : Action} (hmoves : Moves db s a s') {key : JsString}
    (h : Begun s key) : Begun s' key := by
  obtain ⟨row, hrow, hstate⟩ := h
  obtain ⟨row', hrow', hev⟩ := hmoves.evolves hrow
  exact ⟨row', hrow', fun h => hstate (hev.of_accepted h)⟩

/-- The operation's effect has rejected, or its row has ended. -/
def RejectedOrEnded (db : SqliteText) (s : System) (key : JsString) : Prop :=
  0 < s.count db key .rejected ∨ ∃ row, s.journal.find? key = some row ∧ row.Ended

theorem count_mono {s s' : System} {a : Action} (hmoves : Moves db s a s') (key : JsString)
    (kind : EventKind) : s.count db key kind ≤ s'.count db key kind := by
  cases hmoves with
  | none | spawned | stepped | crashed | statement => exact Nat.le_refl _
  | invoked | settled => rw [count_logged]; exact Nat.le_add_right _ _

theorem RejectedOrEnded.moves {s s' : System} {a : Action} (hmoves : Moves db s a s')
    {key : JsString} (h : RejectedOrEnded db s key) : RejectedOrEnded db s' key := by
  rcases h with h | ⟨row, hrow, hended⟩
  · exact .inl (Nat.lt_of_lt_of_le h (count_mono hmoves key .rejected))
  · obtain ⟨row', hrow', hev⟩ := hmoves.evolves hrow
    exact .inr ⟨row', hrow', by rwa [hev.of_ended hended]⟩

/-- What a failed row rests on. -/
structure EffectsRecorded (db : SqliteText) (s : System) : Prop where
  begun : ∀ c ∈ s.calls, c.phase.begun = true → Begun s (db.text c.request.operationId)
  logged : ∀ e ∈ s.log, Begun s (db.text e.operationId)
  catching : ∀ c ∈ s.calls, ∀ f, c.phase = .catching f →
    RejectedOrEnded db s (db.text c.request.operationId)
  failed : ∀ key row, s.journal.find? key = some row → row.state = .failed →
    0 < s.count db key .rejected

theorem mem_setPhase_of {s : System} {i : Nat} {c d : Call} {phase : Phase}
    (hc : s.calls[i]? = some c) (h : d ∈ (s.setPhase i phase).calls) :
    d ∈ s.calls ∨ d = { c with phase } := by
  obtain ⟨j, hj⟩ := List.mem_iff_getElem?.mp h
  rw [getElem?_setPhase] at hj
  split at hj
  · rename_i hij
    rw [← hij, hc, Option.map_some] at hj
    exact .inr (Option.some.inj hj).symm
  · exact .inl (List.mem_of_getElem? hj)

theorem CallStep.begun {journal journal' : Journal} {request : OperationRequest}
    {fault : Option JsError} {phase phase' : Phase}
    (h : CallStep db journal request fault phase phase' journal') (hbegun : phase'.begun = true) :
    phase.begun = true ∨ ∃ row, journal'.find? (db.text request.operationId) = some row ∧
      row.state ≠ .accepted := by
  cases h with
  | idle => exact .inl hbegun
  | answered _ h => cases phase' <;> simp [Phase.begun, Phase.ended] at h hbegun
  | started row hrow hstate hset => exact .inr ⟨_, by rw [hset, if_pos rfl], by simp⟩
  | invoked | notCommitted => exact .inl rfl
  | claimed | notStarted | committed | failed | notFailed =>
      exact absurd hbegun (by simp [Phase.begun])

/-- Only the catch block of a running row records a failure. -/
theorem CallStep.failed_row {journal journal' : Journal} {request : OperationRequest}
    {fault : Option JsError} {phase phase' : Phase}
    (h : CallStep db journal request fault phase phase' journal') {key : JsString} {row : Row}
    (hrow : journal'.find? key = some row) (hstate : row.state = .failed) :
    journal.find? key = some row ∨ (key = db.text request.operationId ∧
      (∃ f, phase = .catching f) ∧ ∃ old, journal.find? key = some old ∧ old.state = .running) := by
  have hset : ∀ new : Row, SetRow journal journal' (db.text request.operationId) new →
      new.state ≠ .failed → journal.find? key = some row := by
    intro new hset hne
    rw [hset key] at hrow
    split at hrow
    · exact absurd (Option.some.inj hrow ▸ hstate) hne
    · exact hrow
  cases h with
  | idle | answered | invoked => exact .inl hrow
  | claimed hfree hnew => exact .inl (hset _ hnew (by simp [acceptedRow]))
  | started old hold holdState hnew => exact .inl (hset _ hnew (by simp))
  | committed value encoded old haccepted hfault hencoded hold holdState hnew =>
      exact .inl (hset _ hnew (by simp))
  | notStarted failure hfail hsame | notCommitted value failure hfail hsame hwhy
  | notFailed old failure hfail hsame => exact .inl (hsame key ▸ hrow)
  | failed failure encoded old hold holdState hnew =>
      by_cases hkey : key = db.text request.operationId
      · exact .inr ⟨hkey, ⟨failure, rfl⟩, old, hkey ▸ hold, holdState⟩
      · rw [hnew key, if_neg hkey] at hrow
        exact .inl hrow

/-- Under the condition, a call comes to its catch block without a rejection
only after its row has ended. -/
theorem CallStep.ended_of_catching {journal journal' : Journal} {request : OperationRequest}
    {fault : Option JsError} {phase : Phase} {failure : Failure}
    (h : CallStep db journal request fault phase (.catching failure) journal')
    (hbegun : phase.begun = true → ∃ row, journal.find? (db.text request.operationId) = some row ∧
      row.state ≠ .accepted)
    (hcond : ∀ value row, phase = .fulfilled value →
      journal.find? (db.text request.operationId) = some row → row.state = .running →
      Live.wireResult value = .ok value ∧ (∃ encoded, encodeResult db value = .ok encoded) ∧
        fault = none) :
    ∃ row, journal'.find? (db.text request.operationId) = some row ∧ row.Ended := by
  cases h with
  | idle _ h => simp [Phase.ended] at h
  | answered _ h => simp [Phase.ended] at h
  | notCommitted value failure hfail hsame hwhy =>
      obtain ⟨row, hrow, hstate⟩ := hbegun rfl
      refine ⟨row, by rw [hsame, hrow], hstate, fun hrunning => ?_⟩
      obtain ⟨haccepted, hencoded, hfault⟩ := hcond value row rfl hrow hrunning
      exact hwhy haccepted hencoded hfault row hrow hrunning

theorem EffectsRecorded.moves {s s' : System} {a : Action} (hmoves : Moves db s a s')
    (hcond : CommitsAccepted db s a) (h : EffectsRecorded db s) : EffectsRecorded db s' := by
  -- the calls that have not moved and the events that were logged
  have hbegun : ∀ c ∈ s.calls, c.phase.begun = true → Begun s' (db.text c.request.operationId) :=
    fun c hc hp => (h.begun c hc hp).moves hmoves
  have hcatching : ∀ c ∈ s.calls, ∀ f, c.phase = .catching f →
      RejectedOrEnded db s' (db.text c.request.operationId) :=
    fun c hc f hf => (h.catching c hc f hf).moves hmoves
  have hlogged : ∀ e ∈ s.log, Begun s' (db.text e.operationId) :=
    fun e he => (h.logged e he).moves hmoves
  cases hmoves with
  | none => exact h
  | spawned request =>
      have hcalls : ∀ c ∈ s.calls ++ [⟨request, .called⟩], c ∈ s.calls ∨ c.phase = .called := by
        intro c hc
        rcases List.mem_append.mp hc with hc | hc
        · exact .inl hc
        · rw [List.mem_singleton.mp hc]; exact .inr rfl
      refine ⟨fun c hc hp => ?_, hlogged, fun c hc f hf => ?_, h.failed⟩
      · rcases hcalls c hc with hc | hcalled
        · exact hbegun c hc hp
        · rw [hcalled] at hp; exact absurd hp (by simp [Phase.begun])
      · rcases hcalls c hc with hc | hcalled
        · exact hcatching c hc f hf
        · exact absurd (hcalled.symm.trans hf) (by simp)
  | statement _ journal hrow hended =>
      exact ⟨hbegun, hlogged, hcatching, fun key row hr hstate =>
        h.failed key row (hended key row hr (.inr hstate)) hstate⟩
  | stepped i c fault phase journal hc hphase hstep =>
      have hmem := List.mem_of_getElem? hc
      refine ⟨fun d hd hp => ?_, hlogged, fun d hd f hf => ?_,
        fun key row hr hstate => ?_⟩
      · rcases mem_setPhase_of (s := s.setJournal journal) hc hd with hd | rfl
        · exact hbegun d hd hp
        · rcases hstep.begun hp with hold | hnew
          · exact hbegun c hmem hold
          · exact hnew
      · rcases mem_setPhase_of (s := s.setJournal journal) hc hd with hd | rfl
        · exact hcatching d hd f hf
        · dsimp only at hf
          subst hf
          exact .inr (hstep.ended_of_catching (h.begun c hmem) fun value row => hcond c value row hc)
      · rcases hstep.failed_row hr hstate with hold | ⟨rfl, ⟨f, hf⟩, old, hold, hrunning⟩
        · exact h.failed key row hold hstate
        · rcases h.catching c hmem f hf with hrejected | ⟨row', hrow', hended⟩
          · exact hrejected
          · obtain rfl := Option.some.inj (hold.symm.trans hrow')
            exact absurd hrunning hended.2
  | invoked i c fault hc hphase =>
      have hmem := List.mem_of_getElem? hc
      have hrow := hbegun c hmem (by rw [hphase]; rfl)
      refine ⟨fun d hd hp => ?_, fun e he => ?_, fun d hd f hf => ?_,
        fun key row hr hstate => ?_⟩
      · rcases mem_setPhase_of hc hd with hd | rfl
        · exact hbegun d hd hp
        · exact hrow
      · rcases List.mem_append.mp he with he | he
        · exact hlogged e he
        · rw [List.mem_singleton.mp he]; exact hrow
      · rcases mem_setPhase_of hc hd with hd | rfl
        · exact hcatching d hd f hf
        · exact absurd hf (by simp)
      · rw [count_logged]
        exact Nat.lt_of_lt_of_le (h.failed key row hr hstate) (Nat.le_add_right _ _)
  | settled i c outcome hc hphase =>
      have hmem := List.mem_of_getElem? hc
      have hrow := hbegun c hmem (by rw [hphase]; rfl)
      refine ⟨fun d hd hp => ?_, fun e he => ?_, fun d hd f hf => ?_,
        fun key row hr hstate => ?_⟩
      · rcases mem_setPhase_of hc hd with hd | rfl
        · exact hbegun d hd hp
        · exact hrow
      · rcases List.mem_append.mp he with he | he
        · exact hlogged e he
        · rw [List.mem_singleton.mp he]; exact hrow
      · rcases mem_setPhase_of hc hd with hd | rfl
        · exact hcatching d hd f hf
        · cases outcome with
          | fulfilled value' => exact absurd hf (by simp [Settled.phase])
          | rejected thrown =>
              refine .inl ?_
              rw [count_logged]
              simp [Settled.kind]
      · rw [count_logged]
        exact Nat.lt_of_lt_of_le (h.failed key row hr hstate) (Nat.le_add_right _ _)
  | crashed i c hc =>
      refine ⟨fun d hd hp => ?_, hlogged, fun d hd f hf => ?_, h.failed⟩
      · rcases mem_setPhase_of hc hd with hd | rfl
        · exact hbegun d hd hp
        · exact absurd hp (by simp [Phase.begun])
      · rcases mem_setPhase_of hc hd with hd | rfl
        · exact hcatching d hd f hf
        · exact absurd hf (by simp)

theorem count_pos_logged {s : System} {key : JsString} {kind : EventKind}
    (h : 0 < s.count db key kind) : ∃ e ∈ s.log, db.text e.operationId = key := by
  obtain ⟨e, he, hkey⟩ := List.countP_pos_iff.mp h
  exact ⟨e, he, by simpa using (Bool.and_eq_true_iff.mp hkey).1⟩

/-- In every run that meets the condition at every step, a failed row's effect
has rejected, and the row of an effect that fulfilled is running, committed or
unknown. -/
theorem failed_rows_rejected (db : SqliteText) (actions : List Action)
    (hcond : RunMeets db (CommitsAccepted db) (.init .empty) actions) :
    ∀ key,
      (∀ row, ((System.init .empty).run db actions).journal.find? key = some row →
        row.state = .failed → 0 < ((System.init .empty).run db actions).count db key .rejected) ∧
      (0 < ((System.init .empty).run db actions).count db key .fulfilled →
        ∃ row, ((System.init .empty).run db actions).journal.find? key = some row ∧
          (row.state = .running ∨ row.state = .committed ∨ row.state = .unknownNeedsReconcile)) := by
  intro key
  have hrecorded : EffectsRecorded db ((System.init .empty).run db actions) :=
    run_preserves_of (fun _ _ _ hmoves hc h => EffectsRecorded.moves hmoves hc h) actions hcond
      ⟨fun c hc => absurd hc List.not_mem_nil, fun e he => absurd he List.not_mem_nil,
        fun c hc => absurd hc List.not_mem_nil,
        fun k row hrow => absurd hrow (by simp [System.init])⟩
  refine ⟨fun row hrow hstate => hrecorded.failed key row hrow hstate, fun hfulfilled => ?_⟩
  obtain ⟨e, he, rfl⟩ := count_pos_logged hfulfilled
  obtain ⟨row, hrow, hstate⟩ := hrecorded.logged e he
  refine ⟨row, hrow, ?_⟩
  -- an effect settles once
  have hbudget := budget_run db .empty actions (db.text e.operationId)
  have hone := hbudget.ticket
  have hsettled := hbudget.settled
  have hcount : Journal.rowCount ((System.init .empty).run db actions).journal
      (db.text e.operationId) ≤ 1 := by
    unfold Journal.rowCount
    split <;> omega
  have hcounted := rowsCounted_run db actions _ row hrow
  cases hst : row.state with
  | accepted => exact absurd hst hstate
  | running => exact .inl rfl
  | committed => exact .inr (.inl rfl)
  | unknownNeedsReconcile => exact .inr (.inr rfl)
  | failed =>
      have := hrecorded.failed _ row hrow hst
      omega
  | rolledBack => simp [Row.Counted, hst] at hcounted

/-- A call whose effect fulfils with undefined, run to its end. -/
def undefinedResultRun : List Action :=
  [.execute ⟨js "op", js "kind", js "input"⟩, .advance 0 none, .advance 0 none, .advance 0 none,
    .settle 0 (.fulfilled (.ofGraph (.scalar .undefined rfl))), .advance 0 none,
    .advance 0 none]

/-- An effect that fulfilled, and never rejected, is on record as failed. -/
theorem fulfilled_effect_recorded_failed :
    ((System.init .empty).run .replacing undefinedResultRun).count .replacing (js "op") .fulfilled
      = 1 ∧
    ((System.init .empty).run .replacing undefinedResultRun).count .replacing (js "op") .rejected
      = 0 ∧
    (((System.init .empty).run .replacing undefinedResultRun).journal.find? (js "op")).map Row.state
      = some .failed := by
  decide

theorem settledRun_recorded :
    (∃ row, ((System.init .empty).run .replacing settledRun).journal.find? (js "a") = some row ∧
      row.state = .failed) ∧
    0 < ((System.init .empty).run .replacing settledRun).count .replacing (js "a") .rejected := by
  have hmeets : RunMeets .replacing (CommitsAccepted .replacing) (.init .empty) settledRun := by
    refine ⟨trivial, ?_, ?_, ?_, trivial, ?_, trivial, ?_, ?_, ?_, trivial, ?_, trivial⟩
    all_goals try exact fun c value row hc hvalue => absurd hvalue (not_fulfilled (by decide) hc)
    -- the commit of the second call
    intro c value row hc hvalue _ _
    obtain rfl := Option.some.inj hc
    obtain rfl := Phase.fulfilled.inj hvalue
    exact ⟨null_accepted, ⟨_, null_encoded⟩, rfl⟩
  exact ⟨⟨_, rfl, rfl⟩, (failed_rows_rejected .replacing settledRun hmeets (js "a")).1 _ rfl rfl⟩

end Benchhand.Operations
