/-
Benchhand.Operations.SystemTheorems — the journal over whole runs.

`Moves` lists what one action can do to the system: at most one call moves, at
most one statement runs, and only the step that invokes an effect or settles
one adds to the log. The invariants are read off from it.

At-most-once is a budget. A call between its claim and the invocation of its
effect holds a ticket; tickets and invocations of an operation together are at
most one, and none while it has no row (`Budget`). The insert of the row hands
out the only ticket there will ever be, and invoking the effect spends it.
-/
import Benchhand.Operations.System
import Benchhand.Operations.JournalTheorems

namespace Benchhand.Operations

open Benchhand.Text Benchhand.Js Benchhand.Contracts Benchhand.Store

variable {db : SqliteText}

/-! ## What one action can do -/

/-- The system after one action. -/
inductive Moves (db : SqliteText) (s : System) : Action → System → Prop where
  /-- The action is not possible. -/
  | none (a : Action) : Moves db s a s
  | spawned (request : OperationRequest) :
      Moves db s (.execute request) { s with calls := s.calls ++ [⟨request, .called⟩] }
  /-- A call takes a step other than invoking its effect. -/
  | stepped (i : Nat) (c : Call) (fault : Option JsError) (phase : Phase) (journal : Journal)
      (hc : s.calls[i]? = some c) (hphase : c.phase ≠ .started)
      (h : CallStep db s.journal c.request fault c.phase phase journal) :
      Moves db s (.advance i fault) ((s.setJournal journal).setPhase i phase)
  | invoked (i : Nat) (c : Call) (fault : Option JsError) (hc : s.calls[i]? = some c)
      (hphase : c.phase = .started) :
      Moves db s (.advance i fault) ((s.setPhase i .awaiting).logged i c .invoked)
  | settled (i : Nat) (c : Call) (outcome : Settled) (hc : s.calls[i]? = some c)
      (hphase : c.phase = .awaiting) :
      Moves db s (.settle i outcome) ((s.setPhase i outcome.phase).logged i c outcome.kind)
  | crashed (i : Nat) (c : Call) (hc : s.calls[i]? = some c) :
      Moves db s (.crash i) (s.setPhase i .crashed)
  /-- A direct call of `prepare`, `markRunning` or `reconcileInterrupted`. -/
  | statement (a : Action) (journal : Journal)
      (h : ∀ k, RowChange (s.journal.find? k) (journal.find? k))
      (hended : ∀ k row, journal.find? k = some row → row.state = .committed ∨ row.state = .failed →
        s.journal.find? k = some row) :
      Moves db s a (s.setJournal journal)

theorem moves_step (s : System) (a : Action) : Moves db s a (s.step db a) := by
  cases a with
  | execute request => exact .spawned request
  | advance i fault =>
      simp only [System.step]
      split
      · exact .none _
      · rename_i c hc
        have hstep := callStep_advance db s.journal c.request c.phase fault
        simp only [System.advance]
        split
        · rename_i hphase
          rw [hphase]
          exact .invoked i c fault hc hphase
        · rename_i hphase
          exact .stepped i c fault _ _ hc hphase hstep
  | settle i outcome =>
      simp only [System.step]
      split
      · exact .none _
      · rename_i c hc
        split
        · rename_i hphase
          exact .settled i c outcome hc hphase
        · exact .none _
  | crash i =>
      simp only [System.step]
      split
      · exact .none _
      · rename_i c hc
        split
        · exact .none _
        · exact .crashed i c hc
  | prepare request fault =>
      refine .statement _ _ (prepare_rowChange s.journal request fault) fun k row hrow hstate => ?_
      rcases prepare_cases db s.journal request fault with ⟨outcome, h, -⟩ | ⟨-, -, hset⟩
      · rwa [h] at hrow
      · rw [hset k] at hrow
        split at hrow
        · obtain rfl := Option.some.inj hrow
          exact absurd hstate (by simp [acceptedRow])
        · exact hrow
  | markRunning operationId fault =>
      refine .statement _ _ (markRunning_rowChange s.journal operationId fault)
        fun k row hrow hstate => ?_
      rcases markRunning_cases db s.journal operationId fault with
        ⟨-, row', -, -, hset⟩ | ⟨-, hsame⟩
      · rw [hset k] at hrow
        split at hrow
        · obtain rfl := Option.some.inj hrow
          exact absurd hstate (by simp)
        · exact hrow
      · rwa [hsame k] at hrow
  | reconcileInterrupted fault =>
      refine .statement _ _ (reconcileInterrupted_rowChange s.journal fault)
        fun k row hrow hstate => ?_
      have h := reconcileInterrupted_rowChange s.journal fault k
      rw [hrow] at h
      revert h
      unfold Journal.reconcileInterrupted at hrow
      cases fault with
      | some e => exact fun _ => hrow
      | none =>
          dsimp only at hrow
          rw [Table.find?_updateWhere] at hrow
          intro _
          cases hold : s.journal.find? k with
          | none => rw [hold] at hrow; exact absurd hrow (by simp)
          | some old =>
              rw [hold, Option.map_some] at hrow
              split at hrow
              · rw [← Option.some.inj hrow] at hstate
                exact absurd hstate (by simp)
              · exact hrow

/-- Every action moves every row along its life. -/
theorem Moves.rowChange {s s' : System} {a : Action} (h : Moves db s a s') (k : JsString) :
    RowChange (s.journal.find? k) (s'.journal.find? k) := by
  cases h with
  | none | spawned | invoked | settled | crashed => exact .same _
  | stepped i c fault phase journal hc hphase h => exact h.rowChange k
  | statement _ journal h hended => exact h k

/-- A row that is there is still there after an action, evolved. -/
theorem Moves.evolves {s s' : System} {a : Action} (h : Moves db s a s') {k : JsString} {row : Row}
    (hrow : s.journal.find? k = some row) :
    ∃ row', s'.journal.find? k = some row' ∧ row.Evolves row' :=
  (hrow ▸ h.rowChange k).evolves

/-! ## Runs -/

@[simp] theorem run_nil (s : System) : s.run db [] = s := rfl

@[simp] theorem run_cons (s : System) (a : Action) (actions : List Action) :
    s.run db (a :: actions) = (s.step db a).run db actions := rfl

/-- What every action preserves, a run preserves. -/
theorem run_preserves {P : System → Prop} (hstep : ∀ s a s', Moves db s a s' → P s → P s') :
    ∀ (actions : List Action) {s : System}, P s → P (s.run db actions)
  | [], _, h => h
  | a :: actions, s, h =>
      run_preserves hstep actions (hstep s a (s.step db a) (moves_step s a) h)

/-- Every step of a run meets a condition on the state before it. -/
def RunMeets (db : SqliteText) (cond : System → Action → Prop) : System → List Action → Prop
  | _, [] => True
  | s, a :: actions => cond s a ∧ RunMeets db cond (s.step db a) actions

/-- What every action that meets the condition preserves, such a run preserves. -/
theorem run_preserves_of {cond : System → Action → Prop} {P : System → Prop}
    (hstep : ∀ s a s', Moves db s a s' → cond s a → P s → P s') :
    ∀ (actions : List Action) {s : System}, RunMeets db cond s actions → P s →
      P (s.run db actions)
  | [], _, _, h => h
  | a :: actions, s, hmeets, h =>
      run_preserves_of hstep actions hmeets.2
        (hstep s a (s.step db a) (moves_step s a) hmeets.1 h)

variable (db) in
/-- A row that is there is still there at the end of a run, evolved. -/
theorem run_evolves (actions : List Action) {s : System} {k : JsString} {row : Row}
    (hrow : s.journal.find? k = some row) :
    ∃ row', (s.run db actions).journal.find? k = some row' ∧ row.Evolves row' := by
  refine run_preserves (P := fun s' => ∃ row', s'.journal.find? k = some row' ∧
    row.Evolves row') ?_ actions ⟨row, hrow, .refl row⟩
  rintro s a s' hmoves ⟨row', hrow', hev⟩
  obtain ⟨row'', hrow'', hev'⟩ := hmoves.evolves hrow'
  exact ⟨row'', hrow'', hev.trans hev'⟩

/-! ## Valid rows -/

/-- The version of every row agrees with its state. -/
def RowsCounted (s : System) : Prop := ∀ k row, s.journal.find? k = some row → row.Counted

theorem rowsCounted_run (db : SqliteText) (actions : List Action) :
    RowsCounted ((System.init .empty).run db actions) :=
  run_preserves (fun _ _ _ hmoves h k => (hmoves.rowChange k).counted (h k)) actions
    fun k row h => absurd h (by simp [System.init])

/-- The columns of every row agree with its state. -/
def RowsValid (s : System) : Prop := ∀ k row, s.journal.find? k = some row → row.Valid

/-- When the commit of an accepted value is about to go through, there is a text
to store: `JSON.stringify` gives one, or the driver refuses undefined. -/
def CommitsEncoded (db : SqliteText) (s : System) : Action → Prop
  | .advance i fault => ∀ c value row, s.calls[i]? = some c → c.phase = .fulfilled value →
      s.journal.find? (db.text c.request.operationId) = some row → row.state = .running →
      Live.wireResult value = .ok value → fault = none → encodeResult db value ≠ .ok none
  | _ => True

/-- A row that a step of `execute` commits takes what was encoded. -/
theorem CallStep.committed_row {journal journal' : Journal} {request : OperationRequest}
    {fault : Option JsError} {phase phase' : Phase}
    (h : CallStep db journal request fault phase phase' journal')
    (hcond : ∀ value row, phase = .fulfilled value →
      journal.find? (db.text request.operationId) = some row → row.state = .running →
      Live.wireResult value = .ok value → fault = none → encodeResult db value ≠ .ok none)
    {key : JsString} {row : Row} (hrow : journal'.find? key = some row)
    (hstate : row.state = .committed) : journal.find? key = some row ∨ row.resultJson.isSome := by
  have hset : ∀ new : Row, SetRow journal journal' (db.text request.operationId) new →
      new.state ≠ .committed → journal.find? key = some row := by
    intro new hset hne
    rw [hset key] at hrow
    split at hrow
    · exact absurd (Option.some.inj hrow ▸ hstate) hne
    · exact hrow
  cases h with
  | idle | answered | invoked => exact .inl hrow
  | claimed hfree hnew => exact .inl (hset _ hnew (by simp [acceptedRow]))
  | started old hold holdState hnew => exact .inl (hset _ hnew (by simp))
  | failed failure encoded old hold holdState hnew => exact .inl (hset _ hnew (by simp))
  | notStarted failure hfail hsame | notCommitted value failure hfail hsame hwhy
  | notFailed old failure hfail hsame => exact .inl (hsame key ▸ hrow)
  | committed value encoded old haccepted hfault hencoded hold holdState hnew =>
      rw [hnew key] at hrow
      split at hrow
      · have hne := hcond value old rfl hold holdState haccepted hfault
        obtain rfl := Option.some.inj hrow
        cases encoded with
        | none => exact absurd hencoded hne
        | some text => exact .inr rfl
      · exact .inl hrow

theorem RowsValid.moves {s s' : System} {a : Action} (hmoves : Moves db s a s')
    (hcond : CommitsEncoded db s a) (h : RowsValid s) : RowsValid s' := by
  intro k
  refine (hmoves.rowChange k).valid (fun row hrow hstate => ?_) (h k)
  cases hmoves with
  | none | spawned | invoked | settled | crashed => exact .inl hrow
  | stepped i c fault phase journal hc hphase hstep =>
      exact hstep.committed_row (fun value row => hcond c value row hc) hrow hstate
  | statement _ journal hchange hended => exact .inl (hended k row hrow (.inl hstate))

theorem rowsValid_init : RowsValid (.init .empty) := fun k row h => absurd h (by
  simp [System.init])

/-! ## Calls and events -/

section

variable (s : System) (i : Nat) (c : Call) (phase : Phase) (kind : EventKind) (key : JsString)

@[simp] theorem setJournal_journal (journal : Journal) : (s.setJournal journal).journal = journal :=
  rfl

@[simp] theorem setJournal_calls (journal : Journal) : (s.setJournal journal).calls = s.calls := rfl

@[simp] theorem setJournal_count (journal : Journal) :
    (s.setJournal journal).count db key kind = s.count db key kind := rfl

@[simp] theorem setPhase_journal : (s.setPhase i phase).journal = s.journal := rfl

@[simp] theorem setPhase_count :
    (s.setPhase i phase).count db key kind = s.count db key kind := rfl

@[simp] theorem logged_journal : (s.logged i c kind).journal = s.journal := rfl

@[simp] theorem logged_calls : (s.logged i c kind).calls = s.calls := rfl

/-- An event counts for its operation and kind. -/
theorem count_logged (kind' : EventKind) :
    (s.logged i c kind).count db key kind' = s.count db key kind'
      + (if db.text c.request.operationId = key ∧ kind = kind' then 1 else 0) := by
  simp [System.count, System.logged, List.countP_append, List.countP_cons]

/-- What the calls for an operation weigh together. -/
def System.total (db : SqliteText) (weight : Phase → Nat) : Nat :=
  (s.calls.map fun c => if db.text c.request.operationId = key then weight c.phase else 0).sum

@[simp] theorem setJournal_total (journal : Journal) (weight : Phase → Nat) :
    (s.setJournal journal).total key db weight = s.total key db weight := rfl

@[simp] theorem logged_total (weight : Phase → Nat) :
    (s.logged i c kind).total key db weight = s.total key db weight := rfl

end

theorem sum_map_modify {α : Type} (weight : α → Nat) (f : α → α) : ∀ (l : List α) {i : Nat} {x : α},
    l[i]? = some x →
    ((l.modify i f).map weight).sum + weight x = (l.map weight).sum + weight (f x)
  | [], _, _, h => absurd h (by simp)
  | y :: l, 0, x, h => by
      obtain rfl := Option.some.inj h
      simp only [List.modify_zero_cons, List.map_cons, List.sum_cons]
      omega
  | y :: l, i + 1, x, h => by
      have ih := sum_map_modify weight f l (i := i) (x := x) (by simpa using h)
      simp only [List.modify_succ_cons, List.map_cons, List.sum_cons]
      omega

variable (db) in
/-- One call moving changes the total by its own weight. -/
theorem total_setPhase {s : System} {i : Nat} {c : Call} (hc : s.calls[i]? = some c)
    (phase : Phase) (key : JsString) (weight : Phase → Nat) :
    (s.setPhase i phase).total key db weight
        + (if db.text c.request.operationId = key then weight c.phase else 0)
      = s.total key db weight
        + (if db.text c.request.operationId = key then weight phase else 0) :=
  sum_map_modify _ _ s.calls hc

theorem total_spawned {s : System} (request : OperationRequest) (key : JsString)
    {weight : Phase → Nat} (hw : weight .called = 0) :
    ({ s with calls := s.calls ++ [⟨request, .called⟩] } : System).total key db weight
      = s.total key db weight := by
  simp [System.total, hw]

/-! ## The budget of an operation -/

/-- A call has a ticket between its claim and the invocation of its effect. -/
def Phase.tickets : Phase → Nat
  | .claimed | .started => 1
  | _ => 0

/-- A call waits for an effect that has not settled. -/
def Phase.waits : Phase → Nat
  | .awaiting => 1
  | _ => 0

def Journal.rowCount (journal : Journal) (key : JsString) : Nat :=
  if (journal.find? key).isSome then 1 else 0

theorem rowCount_mono {journal journal' : Journal} {key : JsString}
    (h : RowChange (journal.find? key) (journal'.find? key)) :
    Journal.rowCount journal key ≤ Journal.rowCount journal' key := by
  unfold Journal.rowCount
  generalize journal.find? key = old at h
  generalize journal'.find? key = new at h
  cases h <;> simp

/-- Tickets and invocations are one at most, and none without a row; an
invocation settles once at most. -/
structure Budget (db : SqliteText) (s : System) (key : JsString) : Prop where
  ticket : s.total key db Phase.tickets + s.count db key .invoked
    ≤ Journal.rowCount s.journal key
  settled : s.total key db Phase.waits + s.count db key .fulfilled + s.count db key .rejected
    ≤ s.count db key .invoked

theorem budget_init (journal : Journal) (key : JsString) : Budget db (.init journal) key :=
  ⟨Nat.zero_le _, Nat.le_refl _⟩

theorem tickets_of_ended {phase : Phase} (h : phase.ended = true) :
    phase.tickets = 0 ∧ phase.waits = 0 := by
  cases phase <;> simp_all [Phase.ended, Phase.tickets, Phase.waits]

/-- A new ticket is handed out with the row of the operation. -/
theorem CallStep.tickets_le {journal journal' : Journal} {request : OperationRequest}
    {fault : Option JsError} {phase phase' : Phase}
    (h : CallStep db journal request fault phase phase' journal') :
    phase'.tickets + Journal.rowCount journal (db.text request.operationId)
      ≤ phase.tickets + Journal.rowCount journal' (db.text request.operationId) := by
  have hmono := rowCount_mono (h.rowChange (db.text request.operationId))
  cases h with
  | idle => exact Nat.le_refl _
  | answered _ h => rw [(tickets_of_ended h).1]; exact Nat.add_le_add_right (Nat.zero_le _) _
  | claimed hfree hset => simp [Phase.tickets, Journal.rowCount, hfree, hset _]
  | started | notStarted | invoked | committed | notCommitted | failed | notFailed =>
      simp only [Phase.tickets]; omega

/-- Only the invocation of its effect brings a call to wait for it. -/
theorem CallStep.waits_le {journal journal' : Journal} {request : OperationRequest}
    {fault : Option JsError} {phase phase' : Phase}
    (h : CallStep db journal request fault phase phase' journal') (hphase : phase ≠ .started) :
    phase'.waits ≤ phase.waits := by
  cases h with
  | idle => exact Nat.le_refl _
  | answered _ h => rw [(tickets_of_ended h).2]; exact Nat.zero_le _
  | invoked => exact absurd rfl hphase
  | claimed | started | notStarted | committed | notCommitted | failed | notFailed =>
      simp [Phase.waits]

theorem settled_phase (outcome : Settled) :
    outcome.phase.tickets = 0 ∧ outcome.phase.waits = 0 := by
  cases outcome <;> exact ⟨rfl, rfl⟩

/-- No action exceeds the budget. -/
theorem Budget.moves {s s' : System} {a : Action} (hmoves : Moves db s a s') {key : JsString}
    (h : Budget db s key) : Budget db s' key := by
  have hmono := rowCount_mono (hmoves.rowChange key)
  obtain ⟨hticket, hsettled⟩ := h
  cases hmoves with
  | none => exact ⟨hticket, hsettled⟩
  | spawned request =>
      constructor
      · rw [total_spawned request key rfl]; exact hticket
      · rw [total_spawned request key rfl]; exact hsettled
  | statement _ journal hrow hended => exact ⟨hticket.trans hmono, hsettled⟩
  | stepped i c fault phase journal hc hphase hstep =>
      have htickets := total_setPhase db (s := s.setJournal journal) hc phase key
        Phase.tickets
      have hwaits := total_setPhase db (s := s.setJournal journal) hc phase key Phase.waits
      have hle := hstep.tickets_le
      have hle' := hstep.waits_le hphase
      simp only [setJournal_total] at htickets hwaits
      simp only [setPhase_journal, setJournal_journal] at hmono
      by_cases hkey : db.text c.request.operationId = key
      · rw [hkey] at hle
        simp only [hkey, if_true] at htickets hwaits
        constructor <;> simp only [setPhase_count, setJournal_count, setPhase_journal,
          setJournal_journal] <;> omega
      · simp only [hkey, if_false, Nat.add_zero] at htickets hwaits
        constructor <;> simp only [setPhase_count, setJournal_count, setPhase_journal,
          setJournal_journal] <;> omega
  | invoked i c fault hc hphase =>
      have htickets := total_setPhase db hc .awaiting key Phase.tickets
      have hwaits := total_setPhase db hc .awaiting key Phase.waits
      simp only [hphase, Phase.tickets, Phase.waits, ite_self, Nat.add_zero] at htickets hwaits
      constructor <;> simp only [count_logged, setPhase_count, logged_total, logged_journal,
        setPhase_journal, and_true, reduceCtorEq, and_false, if_false] <;> omega
  | settled i c outcome hc hphase =>
      have htickets := total_setPhase db hc outcome.phase key Phase.tickets
      have hwaits := total_setPhase db hc outcome.phase key Phase.waits
      rw [(settled_phase outcome).1] at htickets
      rw [(settled_phase outcome).2] at hwaits
      simp only [hphase, Phase.tickets, Phase.waits, ite_self, Nat.add_zero] at htickets hwaits
      cases outcome <;> constructor <;> simp only [Settled.kind, count_logged, setPhase_count,
        logged_total, logged_journal, setPhase_journal, and_true, reduceCtorEq, and_false,
        if_false] <;> omega
  | crashed i c hc =>
      have htickets := total_setPhase db hc .crashed key Phase.tickets
      have hwaits := total_setPhase db hc .crashed key Phase.waits
      simp only [Phase.tickets, Phase.waits, ite_self, Nat.add_zero] at htickets hwaits
      constructor <;> simp only [setPhase_count, setPhase_journal] <;> omega

theorem budget_run (db : SqliteText) (journal : Journal) (actions : List Action) (key : JsString) :
    Budget db ((System.init journal).run db actions) key :=
  run_preserves (fun _ _ _ hmoves => Budget.moves hmoves) actions (budget_init journal key)

end Benchhand.Operations
