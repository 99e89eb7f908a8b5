/-
Benchhand.Storage.ResumeTheorems — applyMigrations over runs that are
interrupted.

One connection at a time applies a list, and a call can crash or have a
statement fail anywhere. `Resumed` is the invariant: the database is the one
that the committed scripts leave (`Installed`), they are a prefix of the list,
and the call that is not over stands behind them. `migrations_resume` reads the
rest off it: what is recorded is what was committed, a rerun goes on behind it
and ends where an uninterrupted run ends, and a changed script is never run.
-/
import Benchhand.Storage.MigrationsTheorems

namespace Benchhand.Storage

open Benchhand.Text Benchhand.Js Benchhand.Store Benchhand.Process

variable {D : Type} {E : Engine D} {db₀ db : Database D} {list pre rest : List Migration}

/-! ## The database some scripts leave -/

/-- The scripts were committed one after the other from a database. -/
inductive Installed (E : Engine D) (db₀ : Database D) : List Migration → Database D → Prop
  | nil : Installed E db₀ [] db₀.createMigrations
  | snoc {pre db m data db'} (h : Installed E db₀ pre db) (hid : m.id ≠ [])
      (hfree : db.checksum? E m.id = none) (hexec : E.exec m.sql db.data = .ok data)
      (hrecord : { db with data }.record? E m = some db') : Installed E db₀ (pre ++ [m]) db'

theorem Installed.created (h : Installed E db₀ pre db) : db.migrations ≠ none := by
  cases h with
  | nil => exact Option.some_ne_none _
  | snoc _ _ _ _ hrecord => exact (record?_eq_some hrecord).2.2.1

theorem Installed.recorded (h : Installed E db₀ pre db) : Recorded E db pre := by
  induction h with
  | nil => exact fun m hm => absurd hm List.not_mem_nil
  | @snoc pre db m data db' _ hid _ _ hrecord ih =>
      refine (ih.extends (extends_record? { db with data } rfl hrecord)).concat hid ?_
      rw [(record?_eq_some hrecord).2.2.2, if_pos rfl]

/-- An id is recorded by its script or was recorded at the start. -/
theorem Installed.checksum?_ne_none (h : Installed E db₀ pre db) (id : JsString) :
    db.checksum? E id ≠ none ↔
      db₀.checksum? E id ≠ none ∨ E.text id ∈ pre.map fun m => E.text m.id := by
  induction h with
  | nil => simp
  | @snoc pre db m data db' _ _ _ _ hrecord ih =>
      have hsame : ({ db with data } : Database D).checksum? E id = db.checksum? E id := rfl
      rw [(record?_eq_some hrecord).2.2.2, hsame]
      split
      · rename_i htext
        simp [htext]
      · rename_i htext
        rw [List.map_append, List.mem_append]
        simpa [htext] using ih

/-- The data is what the scripts make of it, in their order. -/
theorem Installed.data (h : Installed E db₀ pre db) :
    pre.foldlM (fun data m => E.exec m.sql data) db₀.data = .ok db.data := by
  induction h with
  | nil => rfl
  | snoc _ _ _ hexec hrecord ih =>
      rw [List.foldlM_append, ih, (record?_eq_some hrecord).2.1]
      simp only [bind, Except.bind, List.foldlM_cons, hexec, List.foldlM_nil, pure, Except.pure]

/-! ## Uninterrupted runs -/

/-- The part of the result a call starts with is only added to. -/
theorem applyFrom_eq : ∀ (list : List Migration) (db : Database D) (r : MigrationResult),
    applyFrom E db list r =
      ((applyFrom E db list ⟨[], []⟩).1.map fun x =>
          ⟨r.applied ++ x.applied, r.skipped ++ x.skipped⟩,
        (applyFrom E db list ⟨[], []⟩).2)
  | [], db, r => by simp [applyFrom, Except.map]
  | m :: rest, db, r => by
      unfold applyFrom
      split
      · rfl
      · split
        · split
          · rfl
          · rw [applyFrom_eq rest db (r.skip m), applyFrom_eq rest db (MigrationResult.skip ⟨[], []⟩ m)]
            cases (applyFrom E db rest ⟨[], []⟩).1 <;>
              simp [Except.map, MigrationResult.skip]
        · split
          · rfl
          · split
            · rfl
            · rename_i db' _
              rw [applyFrom_eq rest db' (r.apply m),
                applyFrom_eq rest db' (MigrationResult.apply ⟨[], []⟩ m)]
              cases (applyFrom E db' rest ⟨[], []⟩).1 <;>
                simp [Except.map, MigrationResult.apply]

theorem applyFrom_skip {m : Migration} {r : MigrationResult} (hid : m.id ≠ [])
    (h : db.checksum? E m.id = some (E.sha256 m.sql)) :
    applyFrom E db (m :: rest) r = applyFrom E db rest (r.skip m) := by
  rw [applyFrom, if_neg hid, h]
  simp

theorem applyFrom_apply {m : Migration} {r : MigrationResult} {data : D} {db' : Database D}
    (hid : m.id ≠ []) (h : db.checksum? E m.id = none) (hexec : E.exec m.sql db.data = .ok data)
    (hrecord : { db with data }.record? E m = some db') :
    applyFrom E db (m :: rest) r = applyFrom E db' rest (r.apply m) := by
  rw [applyFrom, if_neg hid, h]
  simp [hexec, hrecord]

/-- Recorded migrations are skipped. -/
theorem applyFrom_recorded : ∀ {pre : List Migration} (_ : Recorded E db pre)
    (rest : List Migration) (r : MigrationResult),
    applyFrom E db (pre ++ rest) r
      = applyFrom E db rest ⟨r.applied, r.skipped ++ pre.map Migration.id⟩
  | [], _, rest, r => by simp
  | m :: pre, h, rest, r => by
      have hm := h m List.mem_cons_self
      rw [List.cons_append, applyFrom_skip hm.1 hm.2,
        applyFrom_recorded fun x hx => h x (List.mem_cons_of_mem m hx)]
      simp [MigrationResult.skip]

/-- An uninterrupted run passes through the database that its first scripts
leave. -/
theorem Installed.applyFrom (h : Installed E db₀ pre db) :
    ∀ (rest : List Migration) (r : MigrationResult),
      applyFrom E db₀.createMigrations (pre ++ rest) r
        = Storage.applyFrom E db rest ⟨r.applied ++ pre.map Migration.id, r.skipped⟩ := by
  induction h with
  | nil => simp
  | snoc _ hid hfree hexec hrecord ih =>
      intro rest r
      rw [List.append_assoc, List.singleton_append, ih, applyFrom_apply hid hfree hexec hrecord]
      simp [MigrationResult.apply]

/-- Distinct migrations behind the installed ones are all applied. -/
theorem installed_of_applyFrom : ∀ {rest pre : List Migration} {db final : Database D}
    {r result : MigrationResult}, Installed E db₀ pre db →
    (∀ m ∈ rest, db.checksum? E m.id = none) → (rest.map fun m => E.text m.id).Nodup →
    applyFrom E db rest r = (.ok result, final) →
    Installed E db₀ (pre ++ rest) final ∧
      result = ⟨r.applied ++ rest.map Migration.id, r.skipped⟩
  | [], pre, db, final, r, result, hpre, _, _, h => by
      obtain ⟨hr, rfl⟩ := Prod.mk.inj h
      obtain rfl := Except.ok.inj hr
      simpa using hpre
  | m :: rest, pre, db, final, r, result, hpre, hfree, hnodup, h => by
      have hm := hfree m List.mem_cons_self
      rw [List.map_cons, List.nodup_cons] at hnodup
      rw [Storage.applyFrom, hm] at h
      split at h
      · exact absurd (Prod.mk.inj h).1 (by simp)
      rename_i hid
      dsimp only at h
      split at h
      · exact absurd (Prod.mk.inj h).1 (by simp)
      rename_i data hexec
      split at h
      · exact absurd (Prod.mk.inj h).1 (by simp)
      rename_i db' hrecord
      have hfree' : ∀ x ∈ rest, db'.checksum? E x.id = none := by
        intro x hx
        have hne : E.text x.id ≠ E.text m.id := fun heq =>
          hnodup.1 (heq ▸ List.mem_map_of_mem (f := fun m => E.text m.id) hx)
        rw [(record?_eq_some hrecord).2.2.2, if_neg hne]
        exact hfree x (List.mem_cons_of_mem m hx)
      obtain ⟨hall, hresult⟩ := installed_of_applyFrom (hpre.snoc hid hm hexec hrecord) hfree'
        hnodup.2 h
      rw [List.append_assoc, List.singleton_append] at hall
      exact ⟨hall, by rw [hresult]; simp [MigrationResult.apply]⟩

/-! ## Interrupted runs -/

/-- One connection at a time applies a list; a statement can fail, and the
connection can die. -/
def OneAtATime (list : List Migration) (s : System D) : Action → Prop
  | .apply l => l = list ∧ ∀ p ∈ s.calls, p.ended = true
  | _ => True

/-- Where a call stands behind the scripts committed so far. -/
def Phase.Stands (list committed : List Migration) : Phase D → Prop
  | .create l => l = list
  | .check rest r => ∃ done, list = done ++ rest ∧ done <+: committed ∧
      r.skipped ++ r.applied = done.map Migration.id ∧ (r.applied = [] ∨ done = committed)
  | .begin m rest r => Next m rest r
  | .exec m rest r _ => Next m rest r
  | .insert m rest r _ => Next m rest r
  | .commit m rest r _ => Next m rest r
  | .returned r => list = committed ∧ r.skipped ++ r.applied = list.map Migration.id
  | _ => True
where
  /-- A migration is the first that is not committed. -/
  Next (m : Migration) (rest : List Migration) (r : MigrationResult) : Prop :=
    list = committed ++ m :: rest ∧ m.id ≠ [] ∧
      r.skipped ++ r.applied = committed.map Migration.id

/-- The state of a run that is interrupted. -/
structure Resumed (E : Engine D) (list : List Migration) (db₀ : Database D) (s : System D) :
    Prop where
  installed : Installed E db₀ s.committed s.db.createMigrations
  inOrder : s.committed <+: list
  alone : ∀ (i j : Nat) (p q : Phase D), s.calls[i]? = some p → s.calls[j]? = some q →
    p.ended = false → q.ended = false → i = j
  each : ∀ p ∈ s.calls, p.Sound E s.db ∧ p.Stands list s.committed

/-- A connection that dies leaves the database, and its call if that is over. -/
theorem step_crash (s : System D) (i : Nat) : s.step E (.crash i) = s ∨
    s.step E (.crash i) = { s with calls := s.calls.set i .crashed } := by
  cases hcall : s.calls[i]? with
  | none => exact .inl (by simp only [System.step, hcall])
  | some p =>
      simp only [System.step, hcall]
      split
      · exact .inl rfl
      · exact .inr rfl

theorem Phase.not_inTransaction {p : Phase D} (h : p.ended = true) : p.inTransaction = false := by
  cases p with
  | exec => exact absurd h Bool.false_ne_true
  | insert => exact absurd h Bool.false_ne_true
  | commit => exact absurd h Bool.false_ne_true
  | _ => rfl

/-- A call that is over does nothing. -/
theorem Phase.Step.of_ended {db' : Database D} {locked : Bool} {fault : Option JsError}
    {p p' : Phase D} {c : Option Migration} (hstep : Phase.Step E db locked fault p p' db' c)
    (h : p.ended = true) : p' = p ∧ db' = db ∧ c = none := by
  cases hstep with
  | stay => exact ⟨rfl, rfl, rfl⟩
  | throw _ hp => exact absurd h (by simp [hp])
  | _ => exact absurd h Bool.false_ne_true

/-- Where a call has ended does not depend on what is committed after it. -/
theorem Phase.Stands.of_ended {committed more : List Migration} {p : Phase D}
    (hp : p.Stands list committed) (h : p.ended = true) (hin : committed ++ more <+: list) :
    p.Stands list (committed ++ more) := by
  cases p with
  | returned r =>
      obtain ⟨rfl, hreport⟩ := hp
      have hlen := hin.length_le
      rw [List.length_append] at hlen
      obtain rfl := List.eq_nil_of_length_eq_zero (by omega : more.length = 0)
      exact ⟨(List.append_nil _).symm, hreport⟩
  | threw => trivial
  | crashed => trivial
  | _ => exact absurd h Bool.false_ne_true

section
variable (hfree : ∀ m ∈ list, db₀.checksum? E m.id = none)
  (hnodup : (list.map fun m => E.text m.id).Nodup) {committed : List Migration}
include hfree hnodup

/-- The first migration behind a committed part is recorded just when it is
committed too. -/
theorem Installed.checksum?_next {done : List Migration} {m : Migration}
    (h : Installed E db₀ committed db) (hin : committed <+: list) (hlist : list = done ++ m :: rest)
    (hdone : done <+: committed) :
    db.checksum? E m.id ≠ none ↔ done ++ [m] <+: committed := by
  obtain ⟨more, rfl⟩ := hdone
  obtain ⟨tail, htail⟩ := hin
  rw [h.checksum?_ne_none]
  constructor
  · intro hsome
    obtain hstart | hmem := hsome
    · exact absurd (hfree m (by rw [hlist]; simp)) hstart
    cases more with
    | nil =>
        rw [hlist, List.map_append, List.nodup_append] at hnodup
        rw [List.append_nil] at hmem
        exact absurd rfl (hnodup.2.2 _ hmem _ (by simp))
    | cons x more =>
        rw [hlist, List.append_assoc, List.append_cancel_left_eq, List.cons_append] at htail
        obtain ⟨rfl, -⟩ := List.cons.inj htail
        exact ⟨more, by simp⟩
  · intro hmore
    obtain ⟨more', hmore'⟩ := hmore
    rw [← hmore']
    exact .inr (by simp)

/-- A statement of the only call keeps it behind what is committed. -/
theorem Phase.Stands.step {db' : Database D} {locked : Bool} {fault : Option JsError}
    {p p' : Phase D} {c : Option Migration} (hinst : Installed E db₀ committed db.createMigrations)
    (hin : committed <+: list) (hsound : p.Sound E db) (hp : p.Stands list committed)
    (hstep : Phase.Step E db locked fault p p' db' c) :
    Installed E db₀ (committed ++ c.toList) db'.createMigrations ∧
      committed ++ c.toList <+: list ∧ p'.Stands list (committed ++ c.toList) := by
  have hsame : committed ++ (none : Option Migration).toList = committed := List.append_nil _
  cases hstep with
  | @commit m rest _ _ =>
      obtain ⟨hcreated, data, hexec, hrecord⟩ := hsound
      obtain ⟨hlist, hid, hreport⟩ := hp
      obtain ⟨hnone, -, hcreated', -⟩ := record?_eq_some hrecord
      rw [createMigrations_of_some hcreated] at hinst
      rw [createMigrations_of_some hcreated']
      refine ⟨hinst.snoc hid hnone hexec hrecord, hlist ▸ ⟨rest, by simp⟩, committed ++ [m],
        by rw [hlist]; simp, List.prefix_rfl, ?_, .inr rfl⟩
      simp only [MigrationResult.apply, ← List.append_assoc, hreport]
      simp
  | created =>
      rw [hsame]
      exact ⟨hinst, hin, [], hp.symm ▸ rfl, List.nil_prefix, rfl, .inl rfl⟩
  | throw =>
      rw [hsame]
      exact ⟨hinst, hin, trivial⟩
  | finish =>
      obtain ⟨done, hlist, hdone, hreport, -⟩ := hp
      rw [List.append_nil] at hlist
      rw [hsame]
      exact ⟨hinst, hin, hdone.eq_of_length_le (hlist ▸ hin.length_le) ▸ hlist, hlist ▸ hreport⟩
  | skip hid hsum =>
      obtain ⟨done, hlist, hdone, hreport, hlast⟩ := hp
      rw [createMigrations_of_some hsound] at hinst
      have hmore := (hinst.checksum?_next hfree hnodup hin hlist hdone).mp (by simp [hsum])
      have hnone : _ = [] := hlast.resolve_right fun heq => by
        have := hmore.length_le
        simp [heq] at this
      rw [hsame, createMigrations_of_some hsound]
      refine ⟨hinst, hin, _, by rw [hlist]; simp, hmore, ?_, .inl hnone⟩
      rw [hnone, List.append_nil] at hreport
      simp [MigrationResult.skip, hnone, hreport]
  | found hid hnone =>
      obtain ⟨done, hlist, hdone, hreport, -⟩ := hp
      rw [createMigrations_of_some hsound] at hinst
      have hall : done = committed := by
        obtain ⟨more, rfl⟩ := hdone
        cases more with
        | nil => simp
        | cons x more =>
            obtain ⟨tail, htail⟩ := hin
            rw [hlist, List.append_assoc, List.append_cancel_left_eq, List.cons_append] at htail
            obtain ⟨rfl, -⟩ := List.cons.inj htail
            exact absurd hnone ((hinst.checksum?_next hfree hnodup
              (hlist ▸ ⟨tail, by simp [htail]⟩) hlist ⟨_, rfl⟩).mpr ⟨more, by simp⟩)
      obtain rfl := hall
      rw [hsame, createMigrations_of_some hsound]
      exact ⟨hinst, hin, hlist, hid, hreport⟩
  | stay => rw [hsame]; exact ⟨hinst, hin, hp⟩
  | begin => rw [hsame]; exact ⟨hinst, hin, hp⟩
  | exec => rw [hsame]; exact ⟨hinst, hin, hp⟩
  | insert => rw [hsame]; exact ⟨hinst, hin, hp⟩

theorem Resumed.step {s : System D} {a : Action} (h : Resumed E list db₀ s)
    (ha : OneAtATime list s a) : Resumed E list db₀ (s.step E a) := by
  cases a with
  | apply l =>
      obtain ⟨rfl, hended⟩ := ha
      refine ⟨h.installed, h.inOrder, fun i j p q hi hj hp hq => ?_, fun p hp => ?_⟩
      · have hlast : ∀ {k p}, (s.calls ++ [.create l])[k]? = some p → p.ended = false →
            k = s.calls.length := by
          intro k p hk hp
          obtain hk' | hk' := Nat.lt_or_ge k s.calls.length
          · rw [List.getElem?_append_left hk'] at hk
            exact absurd (hended p (List.mem_of_getElem? hk)) (by simp [hp])
          · have := (List.getElem?_eq_some_iff.mp hk).1
            simp only [List.length_append, List.length_singleton] at this
            omega
        rw [hlast hi hp, hlast hj hq]
      · obtain hp | hp := List.mem_append.mp hp
        · exact h.each p hp
        · rw [List.mem_singleton.mp hp]
          exact ⟨trivial, rfl⟩
  | crash i =>
      obtain hsame | hset := step_crash (E := E) s i
      · rwa [hsame]
      rw [hset]
      refine ⟨h.installed, h.inOrder, fun j k q r hq hr hq' hr' => ?_, fun q hq => ?_⟩
      · obtain ⟨-, rfl⟩ | ⟨-, hq⟩ := getElem?_set_cases hq
        · exact absurd hq' (by simp [Phase.ended])
        obtain ⟨-, rfl⟩ | ⟨-, hr⟩ := getElem?_set_cases hr
        · exact absurd hr' (by simp [Phase.ended])
        exact h.alone j k q r hq hr hq' hr'
      · obtain hq | rfl := List.mem_or_eq_of_mem_set hq
        · exact h.each q hq
        · exact ⟨trivial, trivial⟩
  | advance i fault =>
      cases hcall : s.calls[i]? with
      | none =>
          rw [step_advance_none fault hcall]
          exact h
      | some p =>
          obtain ⟨hsound, hstands⟩ := h.each p (List.mem_of_getElem? hcall)
          have hstep := advance_step (E := E) p s.db (s.locked i) fault
          obtain ⟨hinst, hin, hstands'⟩ :=
            hstands.step hfree hnodup h.installed h.inOrder hsound hstep
          rw [step_advance fault hcall]
          have hsound' := hsound.step hstep
          generalize (p.advance E s.db (s.locked i) fault).1 = p' at *
          generalize (p.advance E s.db (s.locked i) fault).2 = db' at *
          generalize (if fault = none then p.committing else none) = c at *
          by_cases hended : p.ended = true
          · obtain ⟨rfl, rfl, rfl⟩ := hstep.of_ended hended
            have hset : s.calls.set i p' = s.calls := by
              obtain ⟨hlt, rfl⟩ := List.getElem?_eq_some_iff.mp hcall
              exact List.set_getElem_self hlt
            rw [hset]
            simpa using h
          -- the other calls are over, and stay as they are
          have hothers : ∀ j q, s.calls[j]? = some q → j ≠ i → q.ended = true := by
            intro j q hq hj
            by_contra hrunning
            exact hj (h.alone j i q p hq hcall (by simpa using hrunning) (by simpa using hended))
          refine ⟨hinst, hin, fun j k q r hq hr hq' hr' => ?_, fun q hq => ?_⟩
          · have hj : ∀ {j q}, (s.calls.set i p')[j]? = some q → q.ended = false → j = i := by
              intro j q hq hrunning
              obtain ⟨rfl, -⟩ | ⟨hne, hq⟩ := getElem?_set_cases hq
              · rfl
              · exact absurd (hothers j q hq hne) (by simp [hrunning])
            rw [hj hq hq', hj hr hr']
          · obtain ⟨j, hj⟩ := List.mem_iff_getElem?.mp hq
            obtain ⟨-, rfl⟩ | ⟨hne, hj⟩ := getElem?_set_cases hj
            · exact ⟨hsound', hstands'⟩
            · obtain ⟨hq, hstands⟩ := h.each q (List.mem_of_getElem? hj)
              have hover := hothers j q hj hne
              exact ⟨hq.extends (hstep.extends hsound) (Phase.not_inTransaction hover),
                hstands.of_ended hover hin⟩

end

/-! ## A call that runs alone -/

/-- How a call ends. -/
def Phase.over : Except JsError MigrationResult → Phase D
  | .ok r => .returned r
  | .error e => .threw e

theorem meets_advances (list : List Migration) (i : Nat) : ∀ (n : Nat) (s : System D),
    Meets (System.step E) (OneAtATime list) s (List.replicate n (.advance i none))
  | 0, _ => trivial
  | n + 1, _ => ⟨trivial, meets_advances list i n _⟩

section
variable {others : List (Phase D)} (hothers : ∀ p ∈ others, p.ended = true)
include hothers

/-- The statement of the last call when the others are over. -/
theorem step_last (db : Database D) (p : Phase D) (committed : List Migration) :
    (System.mk db (others ++ [p]) committed).step E (.advance others.length none) =
      ⟨(p.advance E db false none).2, others ++ [(p.advance E db false none).1],
        committed ++ p.committing.toList⟩ := by
  have hcall : (others ++ [p])[others.length]? = some p := by simp
  have hfree : (System.mk db (others ++ [p]) committed).locked others.length = false := by
    refine (locked_eq_false_iff _ _).mpr fun j q hq hj => ?_
    have hlen := (List.getElem?_eq_some_iff.mp hq).1
    rw [List.length_append, List.length_singleton] at hlen
    rw [List.getElem?_append_left (by omega)] at hq
    exact Phase.not_inTransaction (hothers q (List.mem_of_getElem? hq))
  rw [step_advance none hcall, hfree]
  simp

/-- The statements of the last call, one after the other. -/
theorem run_last (db : Database D) (p : Phase D) (committed : List Migration) {n : Nat}
    {s : System D}
    (h : System.run E ⟨(p.advance E db false none).2, others ++ [(p.advance E db false none).1],
        committed ++ p.committing.toList⟩ (List.replicate n (.advance others.length none)) = s) :
    System.run E ⟨db, others ++ [p], committed⟩
      (List.replicate (n + 1) (.advance others.length none)) = s := by
  rw [List.replicate_succ, System.run, runFrom_cons, step_last hothers]
  exact h

theorem run_check : ∀ (rest : List Migration) (r : MigrationResult) (db : Database D)
    (committed : List Migration), ∃ n committed',
    System.run E ⟨db, others ++ [.check rest r], committed⟩
        (List.replicate n (.advance others.length none)) =
      ⟨(applyFrom E db rest r).2, others ++ [.over (applyFrom E db rest r).1], committed'⟩
  | [], r, db, committed => ⟨1, _, run_last hothers db _ committed (n := 0) rfl⟩
  | m :: rest, r, db, committed => by
      rw [Storage.applyFrom]
      split
      · rename_i hid
        exact ⟨1, _, run_last hothers db _ committed (n := 0) (by
          simp only [Phase.advance, if_pos hid]; rfl)⟩
      rename_i hid
      cases hsum : db.checksum? E m.id with
      | some checksum =>
          dsimp only
          split
          · rename_i hne
            exact ⟨1, _, run_last hothers db _ committed (n := 0) (by
              simp only [Phase.advance, if_neg hid, hsum, if_pos hne]; rfl)⟩
          · rename_i heq
            obtain ⟨n, committed', h⟩ := run_check rest (r.skip m) db committed
            refine ⟨n + 1, committed', run_last hothers db _ committed ?_⟩
            simpa only [Phase.advance, if_neg hid, hsum, if_neg heq, Phase.committing,
              Option.toList_none, List.append_nil] using h
      | none =>
          have hfound : Phase.advance E db false none (.check (m :: rest) r) =
              (.begin m rest r, db) := by
            simp only [Phase.advance, if_neg hid, hsum]
          have hbegin : Phase.advance E db false none (.begin m rest r) =
              (.exec m rest r db, db) := rfl
          dsimp only
          cases hexec : E.exec m.sql db.data with
          | error e =>
              have hstep : Phase.advance E db false none (.exec m rest r db) = (.threw e, db) := by
                simp only [Phase.advance, hexec]
              refine ⟨3, committed, run_last hothers db _ committed ?_⟩
              rw [hfound]
              refine run_last hothers db _ _ ?_
              rw [hbegin]
              refine run_last hothers db _ _ (n := 0) ?_
              rw [hstep]
              simp [Phase.committing, System.run, Phase.over]
          | ok data =>
              have hstep : Phase.advance E db false none (.exec m rest r db) =
                  (.insert m rest r { db with data }, db) := by
                simp only [Phase.advance, hexec]
              dsimp only
              cases hrecord : { db with data }.record? E m with
              | none =>
                  have hinsert : Phase.advance E db false none
                      (.insert m rest r { db with data }) = (.threw uniqueError, db) := by
                    simp only [Phase.advance, hrecord]
                  refine ⟨4, committed, run_last hothers db _ committed ?_⟩
                  rw [hfound]
                  refine run_last hothers db _ _ ?_
                  rw [hbegin]
                  refine run_last hothers db _ _ ?_
                  rw [hstep]
                  refine run_last hothers db _ _ (n := 0) ?_
                  rw [hinsert]
                  simp [Phase.committing, System.run, Phase.over]
              | some db' =>
                  have hinsert : Phase.advance E db false none
                      (.insert m rest r { db with data }) = (.commit m rest r db', db) := by
                    simp only [Phase.advance, hrecord]
                  obtain ⟨n, committed', h⟩ := run_check rest (r.apply m) db' (committed ++ [m])
                  refine ⟨n + 5, committed', run_last hothers db _ committed ?_⟩
                  rw [hfound]
                  refine run_last hothers db _ _ ?_
                  rw [hbegin]
                  refine run_last hothers db _ _ ?_
                  rw [hstep]
                  refine run_last hothers db _ _ ?_
                  rw [hinsert]
                  refine run_last hothers db _ _ ?_
                  simpa [Phase.committing, Phase.advance] using h

/-- A call that runs alone ends as the function without interruption does. -/
theorem run_apply (db : Database D) (list committed : List Migration) : ∃ n committed',
    System.run E ⟨db, others, committed⟩
        (.apply list :: List.replicate n (.advance others.length none)) =
      ⟨(applyMigrations E db list).2, others ++ [.over (applyMigrations E db list).1],
        committed'⟩ := by
  obtain ⟨n, committed', h⟩ := run_check (E := E) hothers list ⟨[], []⟩ db.createMigrations committed
  refine ⟨n + 1, committed', ?_⟩
  rw [System.run, runFrom_cons]
  refine run_last hothers db (.create list) committed ?_
  simpa [Phase.committing, Phase.advance, applyMigrations] using h

end

/-! ## A changed script -/

section
variable {post : List Migration} {m : Migration}

/-- Where a call stands whose list has `m` between `pre` and `post`: it has not
come past `m`. -/
def Phase.Before (pre : List Migration) (m : Migration) (post : List Migration) : Phase D → Prop
  | .create l => l = pre ++ m :: post
  | .check rest _ => ∃ after, rest = after ++ m :: post ∧ after <:+ pre
  | .begin x rest _ => Within x rest
  | .exec x rest _ _ => Within x rest
  | .insert x rest _ _ => Within x rest
  | .commit x rest _ _ => Within x rest
  | .returned _ => False
  | _ => True
where
  /-- A migration is one of `pre`. -/
  Within (x : Migration) (rest : List Migration) : Prop :=
    ∃ after, rest = after ++ m :: post ∧ x :: after <:+ pre

/-- The id of a migration is recorded with another script. -/
def Changed (E : Engine D) (m : Migration) (db : Database D) : Prop :=
  ∃ checksum, db.checksum? E m.id = some checksum ∧ checksum ≠ E.sha256 m.sql

theorem Changed.extends {db' : Database D} (h : Changed E m db) (hext : db.Extends E db') :
    Changed E m db' := by
  obtain ⟨checksum, hsome, hne⟩ := h
  exact ⟨checksum, hext.2 _ _ hsome, hne⟩

/-- No statement comes past a migration whose script was changed. -/
theorem Phase.Before.step {db' : Database D} {locked : Bool} {fault : Option JsError}
    {p p' : Phase D} {c : Option Migration} (hstep : Phase.Step E db locked fault p p' db' c)
    (hchanged : Changed E m db) (hp : p.Before pre m post) : p'.Before pre m post := by
  obtain ⟨checksum, hsome, hne⟩ := hchanged
  cases hstep with
  | throw => trivial
  | created => exact ⟨pre, hp, List.suffix_rfl⟩
  | finish =>
      obtain ⟨after, hrest, -⟩ := hp
      exact absurd hrest.symm (by simp)
  | skip hid hsum =>
      obtain ⟨after, hrest, hafter⟩ := hp
      cases after with
      | nil =>
          obtain ⟨rfl, -⟩ := List.cons.inj hrest
          exact absurd (Option.some.inj (hsome.symm.trans hsum)) hne
      | cons x after =>
          obtain ⟨rfl, hrest'⟩ := List.cons.inj hrest
          exact ⟨after, hrest', (List.suffix_cons _ _).trans hafter⟩
  | found hid hnone =>
      obtain ⟨after, hrest, hafter⟩ := hp
      cases after with
      | nil =>
          obtain ⟨rfl, -⟩ := List.cons.inj hrest
          exact absurd (hsome.symm.trans hnone) (by simp)
      | cons x after =>
          obtain ⟨rfl, hrest'⟩ := List.cons.inj hrest
          exact ⟨after, hrest', hafter⟩
  | commit =>
      obtain ⟨after, hrest, hafter⟩ := hp
      exact ⟨after, hrest, (List.suffix_cons _ _).trans hafter⟩
  | stay => exact hp
  | begin => exact hp
  | exec => exact hp
  | insert => exact hp

/-- A call that begins is outside a transaction. -/
theorem Calls.apply {K : Database D → Phase D → Prop} {s : System D} (h : Calls K s)
    {l : List Migration} (hl : K s.db (.create l)) : Calls K (s.step E (.apply l)) := by
  have hold : ∀ {i : Nat} {p : Phase D}, (s.calls ++ [.create l])[i]? = some p → p.inTransaction = true →
      s.calls[i]? = some p := by
    intro i p hi hp
    rw [List.getElem?_append] at hi
    split at hi
    · exact hi
    · have hmem := List.mem_of_getElem? hi
      rw [List.mem_singleton.mp hmem] at hp
      exact absurd hp Bool.false_ne_true
  refine ⟨fun p hp => ?_, fun i j p q hi hj hp hq =>
    h.exclusive i j p q (hold hi hp) (hold hj hq) hp hq⟩
  obtain hp | hp := List.mem_append.mp hp
  · exact h.each p hp
  · rwa [List.mem_singleton.mp hp]

/-- So is one that dies. -/
theorem Calls.crash {K : Database D → Phase D → Prop} {s : System D} (h : Calls K s) (i : Nat)
    (hcrashed : K s.db .crashed) : Calls K (s.step E (.crash i)) := by
  obtain hsame | hset := step_crash (E := E) s i
  · rwa [hsame]
  rw [hset]
  have hold : ∀ {j : Nat} {p : Phase D}, (s.calls.set i .crashed)[j]? = some p → p.inTransaction = true →
      s.calls[j]? = some p := by
    intro j p hj hp
    obtain ⟨-, rfl⟩ | ⟨-, hj⟩ := getElem?_set_cases hj
    · exact absurd hp Bool.false_ne_true
    · exact hj
  refine ⟨fun p hp => ?_, fun j k p q hj hk hp hq =>
    h.exclusive j k p q (hold hj hp) (hold hk hq) hp hq⟩
  obtain hp | rfl := List.mem_or_eq_of_mem_set hp
  · exact h.each p hp
  · exact hcrashed

/-- What holds of every call on a list with a changed script. -/
def BeforeChanged (E : Engine D) (pre : List Migration) (m : Migration) (post : List Migration)
    (db : Database D) (p : Phase D) : Prop :=
  p.Sound E db ∧ p.Before pre m post ∧ Changed E m db

theorem calls_beforeChanged {s : System D} {a : Action}
    (h : Calls (BeforeChanged E pre m post) s) (hchanged : Changed E m s.db)
    (ha : OneAtATime (pre ++ m :: post) s a) :
    Calls (BeforeChanged E pre m post) (s.step E a) ∧ Changed E m (s.step E a).db := by
  cases a with
  | apply l => exact ⟨h.apply ⟨trivial, ha.1, hchanged⟩, hchanged⟩
  | crash i =>
      have hdb : (s.step E (.crash i)).db = s.db := by
        obtain hstep | hstep := step_crash (E := E) s i <;> rw [hstep]
      rw [hdb]
      exact ⟨h.crash i ⟨trivial, trivial, hchanged⟩, hchanged⟩
  | advance i fault =>
      cases hcall : s.calls[i]? with
      | none =>
          rw [step_advance_none fault hcall]
          exact ⟨h, hchanged⟩
      | some p =>
          obtain ⟨hsound, hbefore, -⟩ := h.each p (List.mem_of_getElem? hcall)
          have hstep := advance_step (E := E) p s.db (s.locked i) fault
          have hchanged' := hchanged.extends (hstep.extends hsound)
          rw [step_advance fault hcall]
          refine ⟨h.advance (fun _ _ hK => hK.1) ?_ hcall hstep
            ⟨hsound.step hstep, hbefore.step hstep hchanged, hchanged'⟩ _, hchanged'⟩
          exact fun db db' q hext htx hK => ⟨hK.1.extends hext htx, hK.2.1, hK.2.2.extends hext⟩

/-- So far did the calls on a list with a changed script come. -/
theorem run_beforeChanged (hchanged : Changed E m db) (committed : List Migration)
    (actions : List Action) (hmeets : Meets (System.step E) (OneAtATime (pre ++ m :: post))
      ⟨db, [], committed⟩ actions) :
    ∀ p ∈ (System.run E ⟨db, [], committed⟩ actions).calls, p.Before pre m post := by
  have hstart : Calls (BeforeChanged E pre m post) (System.mk db [] committed) :=
    ⟨fun p hp => absurd hp List.not_mem_nil, fun i j p q hi => absurd hi (by simp)⟩
  have hend := Meets.invariant
    (I := fun s => Calls (BeforeChanged E pre m post) s ∧ Changed E m s.db)
    (fun s a ha h => calls_beforeChanged h.1 h.2 ha) actions hmeets ⟨hstart, hchanged⟩
  exact fun p hp => (hend.1.each p hp).2.1

end

/-! ## The main result -/

theorem Resumed.start (db₀ : Database D) (list : List Migration) :
    Resumed E list db₀ ⟨db₀, [], []⟩ where
  installed := .nil
  inOrder := List.nil_prefix
  alone := fun i j p q hi => absurd hi (by simp)
  each := fun p hp => absurd hp List.not_mem_nil

section
variable {s : System D} (h : Resumed E list db₀ s)
include h

theorem Resumed.recorded : Recorded E s.db s.committed :=
  fun m hm => ⟨(h.installed.recorded m hm).1, by
    rw [← checksum?_createMigrations]; exact (h.installed.recorded m hm).2⟩

/-- An id of the list is recorded just when its script is committed. -/
theorem Resumed.checksum?_ne_none (hfree : ∀ m ∈ list, db₀.checksum? E m.id = none)
    (hnodup : (list.map fun m => E.text m.id).Nodup) {m : Migration} (hm : m ∈ list) :
    s.db.checksum? E m.id ≠ none ↔ m ∈ s.committed := by
  rw [← checksum?_createMigrations, h.installed.checksum?_ne_none]
  constructor
  · intro hsome
    obtain hstart | hmem := hsome
    · exact absurd (hfree m hm) hstart
    obtain ⟨x, hx, htext⟩ := List.mem_map.mp hmem
    rwa [← List.inj_on_of_nodup_map hnodup (h.inOrder.subset hx) hm htext]
  · exact fun hmem => .inr (List.mem_map_of_mem hmem)

/-- A rerun goes on behind what is committed, and ends as an uninterrupted run
does. -/
theorem Resumed.rerun (hfree : ∀ m ∈ list, db₀.checksum? E m.id = none)
    (hnodup : (list.map fun m => E.text m.id).Nodup) {rest : List Migration}
    (hlist : list = s.committed ++ rest) :
    applyMigrations E s.db list =
      ((applyMigrations E db₀ list).1.map fun _ =>
          ⟨rest.map Migration.id, s.committed.map Migration.id⟩,
        (applyMigrations E db₀ list).2) := by
  have hrecorded : Recorded E s.db.createMigrations s.committed := h.installed.recorded
  have hrest : ∀ m ∈ rest, s.db.createMigrations.checksum? E m.id = none := by
    intro m hm
    by_contra hsome
    rw [checksum?_createMigrations] at hsome
    have hmem := (h.checksum?_ne_none hfree hnodup (hlist ▸ List.mem_append_right _ hm)).mp hsome
    rw [hlist, List.map_append, List.nodup_append] at hnodup
    exact hnodup.2.2 _ (List.mem_map_of_mem hmem) _ (List.mem_map_of_mem hm) rfl
  have hnodup' : (rest.map fun m => E.text m.id).Nodup := by
    rw [hlist, List.map_append, List.nodup_append] at hnodup
    exact hnodup.2.1
  have hagain : applyMigrations E s.db list =
      applyFrom E s.db.createMigrations rest ⟨[], s.committed.map Migration.id⟩ := by
    rw [applyMigrations, hlist, applyFrom_recorded hrecorded]
    rfl
  have honce : applyMigrations E db₀ list =
      applyFrom E s.db.createMigrations rest ⟨s.committed.map Migration.id, []⟩ := by
    rw [applyMigrations, hlist, h.installed.applyFrom]
    rfl
  rw [hagain, honce, applyFrom_eq rest _ ⟨[], s.committed.map Migration.id⟩,
    applyFrom_eq rest _ ⟨s.committed.map Migration.id, []⟩]
  cases hend : applyFrom E s.db.createMigrations rest ⟨[], []⟩ with
  | mk result final =>
      cases result with
      | error e => rfl
      | ok r =>
          obtain ⟨-, rfl⟩ := installed_of_applyFrom h.installed hrest hnodup' hend
          simp [Except.map]

/-- A rerun of a fully applied list changes nothing. -/
theorem Resumed.rerun_all (hcreated : s.db.migrations ≠ none) (hall : s.committed = list) :
    applyMigrations E s.db list = (.ok ⟨[], list.map Migration.id⟩, s.db) := by
  have hrecorded := h.recorded
  rw [hall] at hrecorded
  have hskip := applyFrom_recorded hrecorded [] ⟨[], []⟩
  rw [List.append_nil] at hskip
  rw [applyMigrations, createMigrations_of_some hcreated, hskip]
  simp [applyFrom]

/-- A call on a list with a changed script neither returns nor runs that script
or a later one. -/
theorem Resumed.changed {m : Migration} (hm : m ∈ s.committed) {sql : JsString}
    (hsql : E.sha256 sql ≠ E.sha256 m.sql) (pre post : List Migration) :
    (∃ e, (applyMigrations E s.db (pre ++ ⟨m.id, sql⟩ :: post)).1 = .error e) ∧
    (Recorded E s.db pre → applyMigrations E s.db (pre ++ ⟨m.id, sql⟩ :: post) =
      (.error (mismatchError ⟨m.id, sql⟩), s.db)) ∧
    ∀ actions, Meets (System.step E) (OneAtATime (pre ++ ⟨m.id, sql⟩ :: post))
        ⟨s.db, [], s.committed⟩ actions →
      ∀ p ∈ (System.run E ⟨s.db, [], s.committed⟩ actions).calls,
        (∀ r, p ≠ .returned r) ∧
        ∀ x rest r tx, p = .exec x rest r tx →
          ∃ after, rest = after ++ ⟨m.id, sql⟩ :: post ∧ x :: after <:+ pre := by
  obtain ⟨hid, hsum⟩ := h.recorded m hm
  have hchanged : Changed E ⟨m.id, sql⟩ s.db := ⟨_, hsum, hsql.symm⟩
  have hcreated : s.db.migrations ≠ none := by
    intro hnone
    rw [Database.checksum?, hnone] at hsum
    exact absurd hsum (by simp)
  refine ⟨?_, fun hpre => ?_, fun actions hmeets p hp => ?_⟩
  · -- a call that runs alone ends, and not by returning
    obtain ⟨n, committed', hrun⟩ := run_apply (E := E) (List.forall_mem_nil _) s.db
      (pre ++ ⟨m.id, sql⟩ :: post) s.committed
    have hbefore := run_beforeChanged hchanged s.committed (.apply (pre ++ ⟨m.id, sql⟩ :: post) ::
      List.replicate n (.advance 0 none))
      ⟨⟨rfl, by simp⟩, meets_advances _ 0 n _⟩ (.over _) (by
        rw [show (0 : Nat) = ([] : List (Phase D)).length from rfl, hrun]
        exact List.mem_singleton_self _)
    cases hend : (applyMigrations E s.db (pre ++ ⟨m.id, sql⟩ :: post)).1 with
    | error e => exact ⟨e, rfl⟩
    | ok r =>
        rw [hend] at hbefore
        exact hbefore.elim
  · rw [applyMigrations, createMigrations_of_some hcreated, applyFrom_recorded hpre, applyFrom,
      if_neg hid]
    simp [hsum, hsql.symm]
  · have hbefore := run_beforeChanged hchanged s.committed actions hmeets p hp
    refine ⟨fun r hr => ?_, fun x rest r tx hx => ?_⟩
    · rw [hr] at hbefore
      exact hbefore
    · rw [hx] at hbefore
      exact hbefore

end

/-- One connection at a time applies a list whose ids are new and, as TEXT
values, different, and is interrupted anywhere: each script is committed once if
its id is recorded and not at all otherwise; the committed scripts stand at the
front of the list and make up the data; a rerun goes on behind them and ends as
an uninterrupted run does, a call that returned has ended so, and a rerun of a
list that is fully applied changes nothing; a changed script is refused, and
neither it nor a later one is run. -/
theorem migrations_resume (E : Engine D) (db₀ : Database D) (list : List Migration)
    (hfree : ∀ m ∈ list, db₀.checksum? E m.id = none)
    (hnodup : (list.map fun m => E.text m.id).Nodup) (actions : List Action)
    (hmeets : Meets (System.step E) (OneAtATime list) ⟨db₀, [], []⟩ actions) :
    let s := System.run E ⟨db₀, [], []⟩ actions
    (∀ m ∈ list, s.committed.count m = if s.db.checksum? E m.id = none then 0 else 1) ∧
    (∃ rest, list = s.committed ++ rest ∧
      s.committed.foldlM (fun data m => E.exec m.sql data) db₀.data = .ok s.db.data ∧
      applyMigrations E s.db list =
        ((applyMigrations E db₀ list).1.map fun _ =>
            ⟨rest.map Migration.id, s.committed.map Migration.id⟩,
          (applyMigrations E db₀ list).2)) ∧
    (∀ r, .returned r ∈ s.calls → s.committed = list ∧
      (applyMigrations E db₀ list).2 = s.db ∧ r.skipped ++ r.applied = list.map Migration.id) ∧
    (s.db.migrations ≠ none → s.committed = list →
      applyMigrations E s.db list = (.ok ⟨[], list.map Migration.id⟩, s.db)) ∧
    ∀ m ∈ s.committed, ∀ sql, E.sha256 sql ≠ E.sha256 m.sql → ∀ pre post,
      (∃ e, (applyMigrations E s.db (pre ++ ⟨m.id, sql⟩ :: post)).1 = .error e) ∧
      (Recorded E s.db pre → applyMigrations E s.db (pre ++ ⟨m.id, sql⟩ :: post) =
        (.error (mismatchError ⟨m.id, sql⟩), s.db)) ∧
      ∀ more, Meets (System.step E) (OneAtATime (pre ++ ⟨m.id, sql⟩ :: post))
          ⟨s.db, [], s.committed⟩ more →
        ∀ p ∈ (System.run E ⟨s.db, [], s.committed⟩ more).calls,
          (∀ r, p ≠ .returned r) ∧
          ∀ x rest r tx, p = .exec x rest r tx →
            ∃ after, rest = after ++ ⟨m.id, sql⟩ :: post ∧ x :: after <:+ pre := by
  intro s
  have h : Resumed E list db₀ s := Meets.invariant (I := Resumed E list db₀)
    (fun s a ha h => h.step hfree hnodup ha) actions hmeets (.start db₀ list)
  have hdistinct : s.committed.Nodup :=
    (List.Nodup.of_map _ hnodup).sublist h.inOrder.sublist
  refine ⟨fun m hm => ?_, ?_, fun r hr => ?_, h.rerun_all, fun m hm sql hsql pre post =>
    h.changed hm hsql pre post⟩
  · have hiff := h.checksum?_ne_none hfree hnodup hm
    split
    · rename_i hnone
      exact List.count_eq_zero.mpr fun hmem => hiff.mpr hmem hnone
    · rename_i hsome
      exact List.count_eq_one_of_mem hdistinct (hiff.mp hsome)
  · obtain ⟨rest, hrest⟩ := h.inOrder
    exact ⟨rest, hrest.symm, h.installed.data, h.rerun hfree hnodup hrest.symm⟩
  · obtain ⟨hcreated, hall, hreport⟩ := h.each _ hr
    refine ⟨hall.symm, ?_, hreport⟩
    have hrerun := h.rerun hfree hnodup (hall.trans (List.append_nil _).symm)
    rw [h.rerun_all hcreated hall.symm] at hrerun
    exact (Prod.mk.inj hrerun).2.symm

/-- SQLite on two scripts that make a table each; the data are the scripts that
were run. -/
def tablesEngine : Engine (List JsString) where
  text := toWellFormed
  sha256 sql :=
    if sql = itemsMigration.sql then
      js "c7a7a3b8b8c03ce0d6a33a5a97734d246fb9574ea67f3e93b0a6710facc4010b"
    else js "a30a5538a75f29ab7ff64923da7fe2a1779570dd360cdc5af2834a2c516e1da0"
  exec sql tables :=
    if sql ∈ tables then .error (.error (js "table already exists")) else .ok (tables ++ [sql])

def notesMigration : Migration :=
  ⟨js "0002-notes", js "CREATE TABLE notes(id INTEGER PRIMARY KEY);"⟩

/-- The connection dies inside the transaction of the second script, and the
next one applies the list again. -/
def resumedRun : List Action :=
  .apply [itemsMigration, notesMigration] ::
    (List.replicate 8 0).map (fun i => Action.advance i none) ++
      .crash 0 :: .apply [itemsMigration, notesMigration] ::
        (List.replicate 8 1).map fun i => Action.advance i none

theorem migrations_resume_crash :
    let s := System.run tablesEngine ⟨⟨none, []⟩, [], []⟩ resumedRun
    s.calls = [.crashed, .returned ⟨[js "0002-notes"], [js "0001-items"]⟩] ∧
      s.committed = [itemsMigration, notesMigration] ∧
      s.committed.count itemsMigration = 1 ∧
      (applyMigrations tablesEngine ⟨none, []⟩ [itemsMigration, notesMigration]).2 = s.db ∧
      ∃ e, (applyMigrations tablesEngine s.db [⟨js "0001-items", js "SELECT 1;"⟩]).1 = .error e := by
  intro s
  have hcalls : s.calls = [.crashed, .returned ⟨[js "0002-notes"], [js "0001-items"]⟩] := rfl
  have hmeets : Meets (System.step tablesEngine)
      (OneAtATime [itemsMigration, notesMigration]) ⟨⟨none, []⟩, [], []⟩ resumedRun := by
    refine ⟨⟨rfl, by decide⟩, trivial, trivial, trivial, trivial, trivial, trivial, trivial, trivial,
      trivial, ⟨rfl, by decide⟩, trivial, trivial, trivial, trivial, trivial, trivial, trivial,
      trivial, trivial⟩
  obtain ⟨hcount, -, hreturned, -, hchanged⟩ := migrations_resume tablesEngine ⟨none, []⟩
    [itemsMigration, notesMigration] (by decide) (by decide) resumedRun hmeets
  obtain ⟨hall, hdb, -⟩ := hreturned ⟨[js "0002-notes"], [js "0001-items"]⟩
    (List.mem_of_getElem? (i := 1) (congrArg (fun calls => calls[1]?) hcalls))
  have hmem : itemsMigration ∈ s.committed := hall ▸ List.mem_cons_self
  refine ⟨hcalls, hall, ?_, hdb, (hchanged _ hmem (js "SELECT 1;") (by decide) [] []).1⟩
  rw [hcount itemsMigration List.mem_cons_self]
  exact if_neg (by decide)

end Benchhand.Storage

