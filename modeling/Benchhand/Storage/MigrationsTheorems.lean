/-
Benchhand.Storage.MigrationsTheorems — what applyMigrations does to a database.

`advance_step` says once what a statement of a call can do.
`migrations_together` is about any number of connections at once: they all
return, on the condition that a call that found a migration unrecorded begins
its transaction before another call has recorded it; `second_call_throws` is a
run without it.
-/
import Benchhand.Storage.Migrations

namespace Benchhand.Storage

open Benchhand.Text Benchhand.Js Benchhand.Store Benchhand.Process

variable {D : Type} {E : Engine D}

/-! ## Records -/

@[simp] theorem createMigrations_data (db : Database D) : db.createMigrations.data = db.data := rfl

@[simp] theorem createMigrations_idem (db : Database D) :
    db.createMigrations.createMigrations = db.createMigrations := rfl

theorem createMigrations_of_some {db : Database D} (h : db.migrations ≠ none) :
    db.createMigrations = db := by
  obtain ⟨t, ht⟩ := Option.ne_none_iff_exists'.mp h
  obtain ⟨migrations, data⟩ := db
  rw [show migrations = some t from ht]
  rfl

@[simp] theorem checksum?_createMigrations (db : Database D) (id : JsString) :
    db.createMigrations.checksum? E id = db.checksum? E id := by
  unfold Database.checksum? Database.createMigrations
  cases db.migrations <;> rfl

/-- Ids are compared as TEXT values. -/
theorem checksum?_congr (db : Database D) {id id' : JsString} (h : E.text id = E.text id') :
    db.checksum? E id = db.checksum? E id' := by
  rw [Database.checksum?, Database.checksum?, h]

/-- A record is added for a free id, and no other record or table changes. -/
theorem record?_eq_some {db db' : Database D} {m : Migration} (h : db.record? E m = some db') :
    db.checksum? E m.id = none ∧ db'.data = db.data ∧ db'.migrations ≠ none ∧
    ∀ id, db'.checksum? E id =
      if E.text id = E.text m.id then some (E.sha256 m.sql) else db.checksum? E id := by
  obtain ⟨t', ht', rfl⟩ := Option.map_eq_some_iff.mp h
  obtain ⟨t, ht, hins⟩ := Option.bind_eq_some_iff.mp ht'
  obtain ⟨hfree, hfind⟩ := Table.find?_insert? hins
  refine ⟨?_, rfl, Option.some_ne_none _, fun id => ?_⟩
  · rw [Database.checksum?, ht]
    exact hfree
  · rw [Database.checksum?, Database.checksum?, ht]
    exact hfind (E.text id)

/-! ## What a statement can do -/

/-- Why a call throws without a fault. -/
inductive Phase.Fails (E : Engine D) (db : Database D) : Phase D → Prop
  | emptyId {m rest r} (h : m.id = []) : Fails E db (.check (m :: rest) r)
  | mismatch {m rest r checksum} (h : db.checksum? E m.id = some checksum)
      (hne : checksum ≠ E.sha256 m.sql) : Fails E db (.check (m :: rest) r)
  | exec {m rest r} {tx : Database D} {e} (h : E.exec m.sql tx.data = .error e) :
      Fails E db (.exec m rest r tx)
  | record {m rest r} {tx : Database D} (h : tx.record? E m = none) :
      Fails E db (.insert m rest r tx)

/-- The statements of a call: the phases before and after, the database after,
and the script that is committed. -/
inductive Phase.Step (E : Engine D) (db : Database D) (locked : Bool) (fault : Option JsError) :
    Phase D → Phase D → Database D → Option Migration → Prop
  | stay (p : Phase D) (h : p.ended = true ∨ locked = true ∧ p.inTransaction = false) :
      Step E db locked fault p p db none
  | throw {p : Phase D} (e : JsError) (hp : p.ended = false)
      (h : fault = some e ∨ p.Fails E db) :
      Step E db locked fault p (.threw e) db none
  | created {list} (h : locked = true → db.migrations ≠ none) :
      Step E db locked fault (.create list) (.check list ⟨[], []⟩) db.createMigrations none
  | finish {r} : Step E db locked fault (.check [] r) (.returned r) db none
  | skip {m rest r} (hid : m.id ≠ []) (h : db.checksum? E m.id = some (E.sha256 m.sql)) :
      Step E db locked fault (.check (m :: rest) r) (.check rest (r.skip m)) db none
  | found {m rest r} (hid : m.id ≠ []) (h : db.checksum? E m.id = none) :
      Step E db locked fault (.check (m :: rest) r) (.begin m rest r) db none
  | begin {m rest r} (h : locked = false) :
      Step E db locked fault (.begin m rest r) (.exec m rest r db) db none
  | exec {m rest r} {tx : Database D} {data} (h : E.exec m.sql tx.data = .ok data) :
      Step E db locked fault (.exec m rest r tx) (.insert m rest r { tx with data }) db none
  | insert {m rest r} {tx tx' : Database D} (h : tx.record? E m = some tx') :
      Step E db locked fault (.insert m rest r tx) (.commit m rest r tx') db none
  | commit {m rest r tx} (h : fault = none) :
      Step E db locked fault (.commit m rest r tx) (.check rest (r.apply m)) tx (some m)

theorem advance_step (p : Phase D) (db : Database D) (locked : Bool) (fault : Option JsError) :
    Phase.Step E db locked fault p (p.advance E db locked fault).1 (p.advance E db locked fault).2
      (if fault = none then p.committing else none) := by
  cases p with
  | create list =>
      cases fault with
      | some e => exact .throw e rfl (.inl rfl)
      | none =>
          by_cases hwait : locked = true ∧ db.migrations = none
          · simp only [Phase.advance, if_pos hwait, Phase.committing, ite_self]
            exact .stay _ (.inr ⟨hwait.1, rfl⟩)
          · simp only [Phase.advance, if_neg hwait, Phase.committing, ite_self]
            exact .created fun hl hnone => hwait ⟨hl, hnone⟩
  | check rest r =>
      cases rest with
      | nil =>
          simp only [Phase.advance, Phase.committing, ite_self]
          exact .finish
      | cons m rest =>
          simp only [Phase.advance, Phase.committing, ite_self]
          by_cases hid : m.id = []
          · simp only [if_pos hid]
            exact .throw _ rfl (.inr (.emptyId hid))
          simp only [if_neg hid]
          cases fault with
          | some e => exact .throw e rfl (.inl rfl)
          | none =>
              cases hsum : db.checksum? E m.id with
              | none => exact .found hid hsum
              | some checksum =>
                  by_cases hne : checksum ≠ E.sha256 m.sql
                  · simp only [if_pos hne]
                    exact .throw _ rfl (.inr (.mismatch hsum hne))
                  · simp only [if_neg hne]
                    exact .skip hid (not_not.mp hne ▸ hsum)
  | begin m rest r =>
      simp only [Phase.advance, Phase.committing, ite_self]
      cases fault with
      | some e => exact .throw e rfl (.inl rfl)
      | none =>
          cases locked with
          | true => exact .stay _ (.inr ⟨rfl, rfl⟩)
          | false => exact .begin rfl
  | exec m rest r tx =>
      simp only [Phase.advance, Phase.committing, ite_self]
      cases fault with
      | some e => exact .throw e rfl (.inl rfl)
      | none =>
          cases hexec : E.exec m.sql tx.data with
          | error e => exact .throw e rfl (.inr (.exec hexec))
          | ok data => exact .exec hexec
  | insert m rest r tx =>
      simp only [Phase.advance, Phase.committing, ite_self]
      cases fault with
      | some e => exact .throw e rfl (.inl rfl)
      | none =>
          cases hrecord : tx.record? E m with
          | none => exact .throw _ rfl (.inr (.record hrecord))
          | some tx' => exact .insert hrecord
  | commit m rest r tx =>
      cases fault with
      | some e => exact .throw e rfl (.inl rfl)
      | none => exact .commit rfl
  | returned r =>
      simp only [Phase.advance, Phase.committing, ite_self]
      exact .stay _ (.inl rfl)
  | threw e =>
      simp only [Phase.advance, Phase.committing, ite_self]
      exact .stay _ (.inl rfl)
  | crashed =>
      simp only [Phase.advance, Phase.committing, ite_self]
      exact .stay _ (.inl rfl)

/-! ## Calls in one database -/

/-- Records are added and none is changed. -/
def Database.Extends (E : Engine D) (db db' : Database D) : Prop :=
  (db.migrations ≠ none → db'.migrations ≠ none) ∧
  ∀ id checksum, db.checksum? E id = some checksum → db'.checksum? E id = some checksum

theorem Database.Extends.refl (db : Database D) : db.Extends E db :=
  ⟨fun h => h, fun _ _ h => h⟩

theorem extends_createMigrations (db : Database D) : db.Extends E db.createMigrations :=
  ⟨fun _ => Option.some_ne_none _, fun _ _ h => by rwa [checksum?_createMigrations]⟩

theorem extends_record? {db db' : Database D} (tx : Database D) {m : Migration}
    (htx : tx.migrations = db.migrations) (h : tx.record? E m = some db') :
    db.Extends E db' := by
  obtain ⟨hfree, -, hcreated, hfind⟩ := record?_eq_some h
  have hsame : ∀ id, db.checksum? E id = tx.checksum? E id := fun id => by
    rw [Database.checksum?, Database.checksum?, htx]
  refine ⟨fun _ => hcreated, fun id checksum hid => ?_⟩
  rw [hfind]
  split
  · rename_i htext
    rw [hsame, checksum?_congr tx htext, hfree] at hid
    exact absurd hid (by simp)
  · rw [← hsame]
    exact hid

/-- The copy a transaction works on belongs to the database. -/
def Phase.Sound (E : Engine D) (db : Database D) : Phase D → Prop
  | .check _ _ => db.migrations ≠ none
  | .begin _ _ _ => db.migrations ≠ none
  | .exec _ _ _ tx => db.migrations ≠ none ∧ tx = db
  | .insert m _ _ tx => db.migrations ≠ none ∧
      ∃ data, E.exec m.sql db.data = .ok data ∧ tx = { db with data }
  | .commit m _ _ tx => db.migrations ≠ none ∧
      ∃ data, E.exec m.sql db.data = .ok data ∧ { db with data }.record? E m = some tx
  | .returned _ => db.migrations ≠ none
  | _ => True

theorem Phase.Sound.step {db db' : Database D} {locked : Bool} {fault : Option JsError}
    {p p' : Phase D} {c : Option Migration} (hp : p.Sound E db)
    (hstep : Phase.Step E db locked fault p p' db' c) : p'.Sound E db' := by
  cases hstep with
  | stay => exact hp
  | throw => trivial
  | created => exact Option.some_ne_none _
  | finish => exact hp
  | skip => exact hp
  | found => exact hp
  | begin => exact ⟨hp, rfl⟩
  | exec h =>
      obtain ⟨hcreated, rfl⟩ := hp
      exact ⟨hcreated, _, h, rfl⟩
  | insert h =>
      obtain ⟨hcreated, data, hexec, rfl⟩ := hp
      exact ⟨hcreated, data, hexec, h⟩
  | commit =>
      obtain ⟨-, data, -, hrecord⟩ := hp
      exact (record?_eq_some hrecord).2.2.1

theorem Phase.Sound.created {db : Database D} {p : Phase D} (hp : p.Sound E db)
    (htx : p.inTransaction = true) : db.migrations ≠ none := by
  cases p with
  | exec => exact hp.1
  | insert => exact hp.1
  | commit => exact hp.1
  | _ => exact absurd htx Bool.false_ne_true

/-- What a step leaves of a database: itself, or more records. -/
theorem Phase.Step.extends {db db' : Database D} {locked : Bool} {fault : Option JsError}
    {p p' : Phase D} {c : Option Migration} (hp : p.Sound E db)
    (hstep : Phase.Step E db locked fault p p' db' c) : db.Extends E db' := by
  cases hstep with
  | created => exact extends_createMigrations db
  | commit =>
      obtain ⟨-, data, -, hrecord⟩ := hp
      exact extends_record? { db with data } rfl hrecord
  | _ => exact .refl db

theorem Phase.Sound.extends {db db' : Database D} {p : Phase D} (hp : p.Sound E db)
    (hext : db.Extends E db') (htx : p.inTransaction = false) : p.Sound E db' := by
  cases p with
  | check => exact hext.1 hp
  | begin => exact hext.1 hp
  | returned => exact hext.1 hp
  | create => trivial
  | threw => trivial
  | crashed => trivial
  | _ => exact absurd htx (by simp [Phase.inTransaction])

/-- Calls with a property each, at most one of them inside its transaction. -/
structure Calls (K : Database D → Phase D → Prop) (s : System D) : Prop where
  each : ∀ p ∈ s.calls, K s.db p
  exclusive : ∀ (i j : Nat) (p q : Phase D), s.calls[i]? = some p → s.calls[j]? = some q →
    p.inTransaction = true → q.inTransaction = true → i = j

theorem locked_eq_false_iff (s : System D) (i : Nat) : s.locked i = false ↔
    ∀ j q, s.calls[j]? = some q → j ≠ i → q.inTransaction = false := by
  unfold System.locked
  rw [List.any_eq_false]
  constructor
  · intro h j q hq hj
    have hmem := h (q, j) (List.mk_mem_zipIdx_iff_getElem?.mpr hq)
    simpa [hj] using hmem
  · intro h c hc
    obtain ⟨q, j⟩ := c
    have hq := List.mk_mem_zipIdx_iff_getElem?.mp hc
    by_cases hj : j = i
    · simp [hj]
    · simp [h j q hq hj]

/-- A step of one call keeps the property of the others when it lasts outside
a transaction. -/
theorem Calls.advance {K : Database D → Phase D → Prop}
    (hsound : ∀ db p, K db p → p.Sound E db)
    (hmono : ∀ db db' q, db.Extends E db' → q.inTransaction = false → K db q → K db' q)
    {s : System D} {i : Nat} {p p' : Phase D} {db' : Database D} {fault : Option JsError}
    {c : Option Migration} (hs : Calls K s) (hcall : s.calls[i]? = some p)
    (hstep : Phase.Step E s.db (s.locked i) fault p p' db' c) (hK : K db' p')
    (committed : List Migration) : Calls K ⟨db', s.calls.set i p', committed⟩ := by
  have hp := hs.each p (List.mem_of_getElem? hcall)
  -- the others are outside a transaction wherever the step changes the database
  have hothers : ∀ j q, s.calls[j]? = some q → j ≠ i → K db' q := by
    intro j q hq hj
    have hKq := hs.each q (List.mem_of_getElem? hq)
    by_cases htx : q.inTransaction = true
    · have hcreated := (hsound _ _ hKq).created htx
      cases hstep with
      | created => rwa [createMigrations_of_some hcreated]
      | commit => exact absurd (hs.exclusive j i q _ hq hcall htx rfl) hj
      | _ => exact hKq
    · exact hmono _ _ q (hstep.extends (hsound _ _ hp)) (by simpa using htx) hKq
  have henters : p'.inTransaction = true → p.inTransaction = false →
      ∀ j q, s.calls[j]? = some q → j ≠ i → q.inTransaction = false := by
    intro hp' hp
    cases hstep with
    | begin h => exact (locked_eq_false_iff s i).mp h
    | stay => exact absurd hp' (by rw [hp]; decide)
    | exec => exact absurd hp (by simp [Phase.inTransaction])
    | insert => exact absurd hp (by simp [Phase.inTransaction])
    | _ => exact absurd hp' (by simp [Phase.inTransaction])
  refine ⟨fun q hq => ?_, fun j k q r hq hr hqt hrt => ?_⟩
  · obtain ⟨j, hj⟩ := List.mem_iff_getElem?.mp hq
    obtain ⟨-, rfl⟩ | ⟨hne, hj⟩ := getElem?_set_cases hj
    · exact hK
    · exact hothers j q hj hne
  · have hmeet : ∀ j q, s.calls[j]? = some q → j ≠ i → q.inTransaction = true →
        p'.inTransaction = true → False := by
      intro j q hq hj hqt hp't
      by_cases hpt : p.inTransaction = true
      · exact hj (hs.exclusive j i q p hq hcall hqt hpt)
      · exact absurd hqt (by rw [henters hp't (by simpa using hpt) j q hq hj]; decide)
    obtain ⟨rfl, rfl⟩ | ⟨hj, hq'⟩ := getElem?_set_cases hq
    · obtain ⟨rfl, -⟩ | ⟨hk, hr'⟩ := getElem?_set_cases hr
      · rfl
      · exact (hmeet k r hr' hk hrt hqt).elim
    · obtain ⟨rfl, rfl⟩ | ⟨hk, hr'⟩ := getElem?_set_cases hr
      · exact (hmeet j q hq' hj hqt hrt).elim
      · exact hs.exclusive j k q r hq' hr' hqt hrt

/-! ## The function without interruption -/

/-- A lone call goes through a list without throwing and leaves a database. -/
inductive Completes (E : Engine D) : Database D → List Migration → Database D → Prop
  | nil (db) : Completes E db [] db
  | skip {db m rest final} (hid : m.id ≠ [])
      (h : db.checksum? E m.id = some (E.sha256 m.sql)) (hrest : Completes E db rest final) :
      Completes E db (m :: rest) final
  | apply {db m rest data db' final} (hid : m.id ≠ []) (h : db.checksum? E m.id = none)
      (hexec : E.exec m.sql db.data = .ok data) (hrecord : { db with data }.record? E m = some db')
      (hrest : Completes E db' rest final) : Completes E db (m :: rest) final

theorem completes_of_applyFrom : ∀ (list : List Migration) (db : Database D)
    (r result : MigrationResult) (final : Database D),
    applyFrom E db list r = (.ok result, final) → Completes E db list final
  | [], db, r, result, final, h => by
      obtain ⟨-, rfl⟩ := Prod.mk.inj h
      exact .nil db
  | m :: rest, db, r, result, final, h => by
      rw [applyFrom] at h
      split at h
      · exact absurd (Prod.mk.inj h).1 (by simp)
      rename_i hid
      split at h
      · rename_i checksum hsum
        split at h
        · exact absurd (Prod.mk.inj h).1 (by simp)
        · rename_i hsame
          exact .skip hid (not_not.mp hsame ▸ hsum)
            (completes_of_applyFrom rest db _ result final h)
      · rename_i hsum
        split at h
        · exact absurd (Prod.mk.inj h).1 (by simp)
        · rename_i data hexec
          split at h
          · exact absurd (Prod.mk.inj h).1 (by simp)
          · rename_i db' hrecord
            exact .apply hid hsum hexec hrecord (completes_of_applyFrom rest db' _ result final h)

/-- The migrations of a list are recorded with their own scripts. -/
def Recorded (E : Engine D) (db : Database D) (list : List Migration) : Prop :=
  ∀ m ∈ list, m.id ≠ [] ∧ db.checksum? E m.id = some (E.sha256 m.sql)

theorem Recorded.extends {db db' : Database D} {list : List Migration}
    (h : Recorded E db list) (hext : db.Extends E db') : Recorded E db' list :=
  fun m hm => ⟨(h m hm).1, hext.2 _ _ (h m hm).2⟩

theorem Recorded.concat {db : Database D} {list : List Migration} {m : Migration}
    (h : Recorded E db list) (hid : m.id ≠ [])
    (hm : db.checksum? E m.id = some (E.sha256 m.sql)) : Recorded E db (list ++ [m]) := by
  intro x hx
  obtain hx | hx := List.mem_append.mp hx
  · exact h x hx
  · rw [List.mem_singleton.mp hx]
    exact ⟨hid, hm⟩

/-- Recorded migrations are skipped. -/
theorem completes_append_iff {db final : Database D} {pre rest : List Migration}
    (h : Recorded E db pre) :
    Completes E db (pre ++ rest) final ↔ Completes E db rest final := by
  induction pre with
  | nil => exact Iff.rfl
  | cons m pre ih =>
      have hm := h m List.mem_cons_self
      have hpre := ih fun x hx => h x (List.mem_cons_of_mem m hx)
      refine ⟨fun hc => hpre.mp ?_, fun hc => .skip hm.1 hm.2 (hpre.mpr hc)⟩
      cases hc with
      | skip _ _ hrest => exact hrest
      | apply _ hnone => exact absurd (hm.2 ▸ hnone) (by simp)

theorem Recorded.completes {db final : Database D} {list : List Migration}
    (h : Recorded E db list) (hc : Completes E db list final) : final = db := by
  rw [← List.append_nil list, completes_append_iff h] at hc
  cases hc
  rfl

/-! ## Connections that run at once -/

/-- The result reports every migration of a list. -/
def Reported (r : MigrationResult) (list : List Migration) : Prop :=
  ∀ m ∈ list, m.id ∈ r.applied ∨ m.id ∈ r.skipped

theorem Reported.skip {r : MigrationResult} {list : List Migration} {m : Migration}
    (h : Reported r list) : Reported (r.skip m) (list ++ [m]) := by
  intro x hx
  obtain hx | hx := List.mem_append.mp hx
  · exact (h x hx).imp_right (List.mem_append_left _)
  · rw [List.mem_singleton.mp hx]
    exact .inr (List.mem_append_right _ (List.mem_singleton_self _))

theorem Reported.apply {r : MigrationResult} {list : List Migration} {m : Migration}
    (h : Reported r list) : Reported (r.apply m) (list ++ [m]) := by
  intro x hx
  obtain hx | hx := List.mem_append.mp hx
  · exact (h x hx).imp_left (List.mem_append_left _)
  · rw [List.mem_singleton.mp hx]
    exact .inl (List.mem_append_right _ (List.mem_singleton_self _))

/-- The part of the list a call has gone through. -/
def Through (E : Engine D) (list : List Migration) (db : Database D) (rest : List Migration)
    (r : MigrationResult) : Prop :=
  ∃ done, list = done ++ rest ∧ Recorded E db done ∧ Reported r done

/-- Where a call of a run stands that meets the condition. -/
def Phase.OnTrack (E : Engine D) (list : List Migration) (db : Database D) : Phase D → Prop
  | .create l => l = list
  | .check rest r => Through E list db rest r
  | .begin m rest r => Through E list db (m :: rest) r
  | .exec m rest r _ => Through E list db (m :: rest) r ∧ db.checksum? E m.id = none
  | .insert m rest r _ => Through E list db (m :: rest) r ∧ db.checksum? E m.id = none
  | .commit m rest r _ => Through E list db (m :: rest) r ∧ db.checksum? E m.id = none
  | .returned r => Recorded E db list ∧ Reported r list
  | .threw _ => False
  | .crashed => False

/-- A transaction that begins is for an unrecorded migration. -/
def Phase.beginsUnrecorded (E : Engine D) (db : Database D) (locked : Bool) : Phase D → Bool
  | .begin m _ _ => locked || (db.checksum? E m.id).isNone
  | _ => true

/-- A call that found a migration unrecorded begins its transaction while the
migration is still unrecorded, and no statement is made to fail. -/
def BeginsUnrecorded (E : Engine D) (s : System D) : Action → Prop
  | .advance i fault => fault = none ∧
      ∀ p ∈ s.calls[i]?, p.beginsUnrecorded E s.db (s.locked i) = true
  | _ => False

instance (s : System D) : ∀ a, Decidable (BeginsUnrecorded E s a)
  | .advance i fault => inferInstanceAs (Decidable (fault = none ∧
      ∀ p ∈ s.calls[i]?, p.beginsUnrecorded E s.db (s.locked i) = true))
  | .apply _ => .isFalse id
  | .crash _ => .isFalse id

/-- `n` calls of `applyMigrations(list)` on one database. -/
def System.start (db : Database D) (list : List Migration) (n : Nat) : System D :=
  ⟨db, List.replicate n (.create list), []⟩

theorem Through.extends {list rest : List Migration} {db db' : Database D} {r : MigrationResult}
    (h : Through E list db rest r) (hext : db.Extends E db') : Through E list db' rest r := by
  obtain ⟨done, hlist, hrec, hrep⟩ := h
  exact ⟨done, hlist, hrec.extends hext, hrep⟩

theorem Phase.OnTrack.extends {list : List Migration} {db db' : Database D} {p : Phase D}
    (hext : db.Extends E db') (htx : p.inTransaction = false) (h : p.OnTrack E list db) :
    p.OnTrack E list db' := by
  cases p with
  | create => exact h
  | check => exact Through.extends h hext
  | begin => exact Through.extends h hext
  | returned => exact ⟨h.1.extends hext, h.2⟩
  | threw => exact h
  | crashed => exact h
  | _ => exact absurd htx (by simp [Phase.inTransaction])

section
variable {list : List Migration} {db db' final : Database D} {locked : Bool}
  {fault : Option JsError} {p p' : Phase D} {c : Option Migration}

/-- What is left of the list would complete from the database as it is. -/
theorem Through.completes {rest : List Migration} {r : MigrationResult}
    (h : Through E list db rest r) (hcreated : db.migrations ≠ none)
    (hc : Completes E db.createMigrations list final) : Completes E db rest final := by
  obtain ⟨done, rfl, hrec, -⟩ := h
  rw [createMigrations_of_some hcreated] at hc
  exact (completes_append_iff hrec).mp hc

/-- The unrecorded migration at the front is the next one to apply. -/
theorem Completes.apply_inv {m : Migration} {rest : List Migration}
    (h : Completes E db (m :: rest) final) (hnone : db.checksum? E m.id = none) :
    ∃ data db', E.exec m.sql db.data = .ok data ∧ { db with data }.record? E m = some db' ∧
      Completes E db' rest final := by
  cases h with
  | skip _ hsome => exact absurd (hnone ▸ hsome) (by simp)
  | apply _ _ hexec hrecord hrest => exact ⟨_, _, hexec, hrecord, hrest⟩

/-- No statement fails on its own. -/
theorem Phase.OnTrack.not_fails (hsound : p.Sound E db) (hp : p.OnTrack E list db)
    (hc : Completes E db.createMigrations list final) : ¬ p.Fails E db := by
  intro hfails
  cases hfails with
  | emptyId hid =>
      cases Through.completes hp hsound hc with
      | skip hne => exact hne hid
      | apply hne => exact hne hid
  | mismatch hsum hne =>
      cases Through.completes hp hsound hc with
      | skip _ hsame => exact hne (Option.some.inj (hsum.symm.trans hsame))
      | apply _ hnone => exact absurd (hsum.symm.trans hnone) (by simp)
  | exec hexec =>
      obtain ⟨hcreated, rfl⟩ := hsound
      obtain ⟨data, -, hok, -⟩ := (Through.completes hp.1 hcreated hc).apply_inv hp.2
      exact absurd (hexec.symm.trans hok) (by simp)
  | record hrecord =>
      obtain ⟨hcreated, data, hexec, rfl⟩ := hsound
      obtain ⟨data', db', hok, hsome, -⟩ := (Through.completes hp.1 hcreated hc).apply_inv hp.2
      obtain rfl := Except.ok.inj (hexec.symm.trans hok)
      exact absurd (hrecord.symm.trans hsome) (by simp)

/-- A call stays on track, and so does every later one. -/
theorem Phase.OnTrack.step (hstep : Phase.Step E db locked fault p p' db' c)
    (hfault : fault = none) (hsound : p.Sound E db) (hp : p.OnTrack E list db)
    (hbegin : p.beginsUnrecorded E db locked = true)
    (hc : Completes E db.createMigrations list final) :
    p'.OnTrack E list db' ∧ Completes E db'.createMigrations list final := by
  cases hstep with
  | stay => exact ⟨hp, hc⟩
  | throw e _ h =>
      obtain h | h := h
      · exact absurd (hfault.symm.trans h) (by simp)
      · exact absurd h (hp.not_fails hsound hc)
  | created =>
      obtain rfl := hp
      exact ⟨⟨[], rfl, fun _ h => absurd h List.not_mem_nil, fun _ h => absurd h List.not_mem_nil⟩,
        hc⟩
  | finish =>
      obtain ⟨done, hlist, hrec, hrep⟩ := hp
      rw [List.append_nil] at hlist
      exact ⟨⟨hlist ▸ hrec, hlist ▸ hrep⟩, hc⟩
  | skip hid hsum =>
      obtain ⟨done, hlist, hrec, hrep⟩ := hp
      exact ⟨⟨done ++ [_], by rw [hlist, List.append_assoc]; rfl, hrec.concat hid hsum, hrep.skip⟩,
        hc⟩
  | found => exact ⟨hp, hc⟩
  | begin hfree =>
      rw [Phase.beginsUnrecorded, hfree, Bool.false_or, Option.isNone_iff_eq_none] at hbegin
      exact ⟨⟨hp, hbegin⟩, hc⟩
  | exec => exact ⟨hp, hc⟩
  | insert => exact ⟨hp, hc⟩
  | @commit m rest r _ _ =>
      obtain ⟨hcreated, data, hexec, hrecord⟩ := hsound
      have hext : db.Extends E db' := extends_record? { db with data } rfl hrecord
      obtain ⟨data', db'', hexec', hrecord', hrest⟩ :=
        (Through.completes hp.1 hcreated hc).apply_inv hp.2
      obtain rfl := Except.ok.inj (hexec.symm.trans hexec')
      obtain rfl := Option.some.inj (hrecord.symm.trans hrecord')
      obtain ⟨⟨done, hlist, hrec, hrep⟩, hnone⟩ := hp
      have hid : m.id ≠ [] := by
        have hcm := Through.completes ⟨done, hlist, hrec, hrep⟩ hcreated hc
        cases hcm with
        | skip hid => exact hid
        | apply hid => exact hid
      obtain ⟨-, -, hcreated', hfind⟩ := record?_eq_some hrecord
      have hdone : Recorded E db' (done ++ [m]) :=
        (hrec.extends hext).concat hid (by rw [hfind, if_pos rfl])
      have hlist' : list = (done ++ [m]) ++ rest := by rw [hlist, List.append_assoc]; rfl
      refine ⟨⟨done ++ [m], hlist', hdone, hrep.apply⟩, ?_⟩
      rw [createMigrations_of_some hcreated', hlist']
      exact (completes_append_iff hdone).mpr hrest

end

theorem step_advance {s : System D} {i : Nat} {p : Phase D} (fault : Option JsError)
    (h : s.calls[i]? = some p) :
    s.step E (.advance i fault) =
      { db := (p.advance E s.db (s.locked i) fault).2
        calls := s.calls.set i (p.advance E s.db (s.locked i) fault).1
        committed := s.committed ++ (if fault = none then p.committing else none).toList } := by
  simp only [System.step, h]
  split <;> simp

theorem step_advance_none {s : System D} {i : Nat} (fault : Option JsError)
    (h : s.calls[i]? = none) : s.step E (.advance i fault) = s := by
  simp only [System.step, h]

/-- A step changes the records by what it commits. -/
theorem Phase.Step.checksum? {db db' : Database D} {locked : Bool} {fault : Option JsError}
    {p p' : Phase D} {c : Option Migration} (hp : p.Sound E db)
    (hstep : Phase.Step E db locked fault p p' db' c) (id : JsString) :
    db'.checksum? E id = match c with
      | some m => if E.text id = E.text m.id then some (E.sha256 m.sql) else db.checksum? E id
      | none => db.checksum? E id := by
  cases hstep with
  | created => exact checksum?_createMigrations db id
  | commit =>
      obtain ⟨-, data, -, hrecord⟩ := hp
      exact (record?_eq_some hrecord).2.2.2 id
  | _ => rfl

/-- Only an unrecorded migration is committed. -/
theorem Phase.Step.committed_free {db db' : Database D} {locked : Bool} {fault : Option JsError}
    {p p' : Phase D} {m : Migration} (hp : p.Sound E db)
    (hstep : Phase.Step E db locked fault p p' db' (some m)) : db.checksum? E m.id = none := by
  cases hstep with
  | commit =>
      obtain ⟨-, data, -, hrecord⟩ := hp
      exact (record?_eq_some hrecord).1

/-- The committed scripts are those of the ids recorded since the start. -/
structure Log (E : Engine D) (db₀ : Database D) (s : System D) : Prop where
  once : (s.committed.map fun m => E.text m.id).Nodup
  recorded : ∀ id, s.db.checksum? E id ≠ none ↔
    db₀.checksum? E id ≠ none ∨ E.text id ∈ s.committed.map fun m => E.text m.id
  fresh : ∀ m ∈ s.committed, db₀.checksum? E m.id = none

theorem Log.step {db₀ db' : Database D} {s : System D} {locked : Bool}
    {fault : Option JsError} {p p' : Phase D} {c : Option Migration} (h : Log E db₀ s)
    (hp : p.Sound E s.db) (hstep : Phase.Step E s.db locked fault p p' db' c)
    (calls : List (Phase D)) : Log E db₀ ⟨db', calls, s.committed ++ c.toList⟩ := by
  have hsum := hstep.checksum? hp
  cases c with
  | none =>
      refine ⟨by simpa using h.once, fun id => ?_, by simpa using h.fresh⟩
      rw [hsum id]
      simpa using h.recorded id
  | some m =>
      have hfree := hstep.committed_free hp
      have hout : E.text m.id ∉ s.committed.map fun m => E.text m.id := fun hmem =>
        (h.recorded m.id).mpr (.inr hmem) hfree
      have hfresh : db₀.checksum? E m.id = none := by
        by_contra hne
        exact (h.recorded m.id).mpr (.inl hne) hfree
      refine ⟨?_, fun id => ?_, fun x hx => ?_⟩
      · rw [Option.toList_some, List.map_append, List.nodup_append]
        refine ⟨h.once, List.nodup_singleton _, fun a ha b hb => ?_⟩
        obtain rfl := List.mem_singleton.mp hb
        exact fun heq => hout ((show a = E.text m.id from heq) ▸ ha)
      · have hid := h.recorded id
        rw [hsum id]
        dsimp only
        split
        · rename_i htext
          simp [htext]
        · rename_i htext
          simpa [htext] using hid
      · rw [Option.toList_some, List.mem_append, List.mem_singleton] at hx
        obtain hx | rfl := hx
        · exact h.fresh x hx
        · exact hfresh

/-- The state of a run of connections that meets the condition. -/
structure Together (E : Engine D) (list : List Migration) (db₀ final : Database D)
    (s : System D) : Prop where
  calls : Calls (fun db p => p.Sound E db ∧ p.OnTrack E list db) s
  completes : Completes E s.db.createMigrations list final
  log : Log E db₀ s

theorem Together.step {list : List Migration} {db₀ final : Database D} {s : System D}
    {a : Action} (h : Together E list db₀ final s) (ha : BeginsUnrecorded E s a) :
    Together E list db₀ final (s.step E a) := by
  cases a with
  | apply => exact ha.elim
  | crash => exact ha.elim
  | advance i fault =>
      obtain ⟨hfault, hbegin⟩ := ha
      cases hcall : s.calls[i]? with
      | none =>
          rw [step_advance_none fault hcall]
          exact h
      | some p =>
          obtain ⟨hsound, htrack⟩ := h.calls.each p (List.mem_of_getElem? hcall)
          have hstep := advance_step (E := E) p s.db (s.locked i) fault
          obtain ⟨htrack', hcompletes'⟩ := htrack.step hstep hfault hsound
            (hbegin p hcall) h.completes
          rw [step_advance fault hcall]
          refine ⟨h.calls.advance (fun _ _ hK => hK.1) ?_ hcall hstep
            ⟨hsound.step hstep, htrack'⟩ _, hcompletes', h.log.step hsound hstep _⟩
          exact fun db db' q hext htx hK => ⟨hK.1.extends hext htx, hK.2.extends hext htx⟩

theorem Together.start {list : List Migration} {db final : Database D}
    (hc : Completes E db.createMigrations list final) (n : Nat) :
    Together E list db final (System.start db list n) where
  calls := by
    have hcreate : ∀ p ∈ (System.start db list n).calls, p = .create list := fun p hp =>
      List.eq_of_mem_replicate hp
    refine ⟨fun p hp => ?_, fun i j p q hi _ hp _ => ?_⟩
    · rw [hcreate p hp]
      exact ⟨trivial, rfl⟩
    · rw [hcreate p (List.mem_of_getElem? hi)] at hp
      exact absurd hp Bool.false_ne_true
  completes := hc
  log := ⟨List.nodup_nil, fun id => by simp [System.start],
    fun m hm => absurd hm List.not_mem_nil⟩

/-- The statements a call still has to run at most. -/
def Phase.work : Phase D → Nat
  | .create list => 5 * list.length + 3
  | .check rest _ => 5 * rest.length + 2
  | .begin _ rest _ => 5 * rest.length + 6
  | .exec _ rest _ _ => 5 * rest.length + 5
  | .insert _ rest _ _ => 5 * rest.length + 4
  | .commit _ rest _ _ => 5 * rest.length + 3
  | _ => 0

theorem Phase.work_pos {p : Phase D} (h : p.ended = false) : 0 < p.work := by
  cases p with
  | returned => exact absurd h Bool.noConfusion
  | threw => exact absurd h Bool.noConfusion
  | crashed => exact absurd h Bool.noConfusion
  | _ => exact Nat.succ_pos _

/-- A statement takes a call further, unless it waits for the lock. -/
theorem Phase.Step.work_lt {db db' : Database D} {locked : Bool} {fault : Option JsError}
    {p p' : Phase D} {c : Option Migration} (hstep : Phase.Step E db locked fault p p' db' c)
    (hended : p.ended = false) (hmoves : locked = false ∨ p.inTransaction = true) :
    p'.work < p.work := by
  cases hstep with
  | stay p h =>
      obtain h | ⟨hlocked, htx⟩ := h
      · exact absurd h (by rw [hended]; decide)
      · obtain hfree | htx' := hmoves
        · exact absurd hlocked (by rw [hfree]; decide)
        · exact absurd htx' (by rw [htx]; decide)
  | throw => exact Phase.work_pos hended
  | _ => simp only [Phase.work, List.length_cons]; omega

/-- Some call can go on as long as one has not ended. -/
theorem exists_work_lt (s : System D) (h : ∃ p ∈ s.calls, p.ended = false) :
    ∃ (i : Nat) (p : Phase D), s.calls[i]? = some p ∧
      (p.advance E s.db (s.locked i) none).1.work < p.work := by
  obtain ⟨p, hp, hended⟩ := h
  obtain ⟨i, hi⟩ := List.mem_iff_getElem?.mp hp
  cases hlocked : s.locked i with
  | false =>
      refine ⟨i, p, hi, ?_⟩
      rw [hlocked]
      exact (advance_step p s.db false none).work_lt hended (.inl rfl)
  | true =>
      -- the call that holds the lock is inside its transaction
      have hnot : ¬ ∀ j q, s.calls[j]? = some q → j ≠ i → q.inTransaction = false := by
        rw [← locked_eq_false_iff, hlocked]
        decide
      simp only [not_forall] at hnot
      obtain ⟨j, q, hj, -, hq⟩ := hnot
      have htx : q.inTransaction = true := by simpa using hq
      refine ⟨j, q, hj, (advance_step q s.db _ none).work_lt ?_ (.inr htx)⟩
      cases q <;> first
        | rfl
        | exact absurd htx Bool.false_ne_true

/-- How often the script of an id was committed in a run. -/
def System.commits (E : Engine D) (s : System D) (id : JsString) : Nat :=
  (s.committed.map fun m => E.text m.id).count (E.text id)

/-- Connections that run a list at once, in every order in which no migration
is recorded between the check of a call and its transaction: no call throws,
some call can go on until all have returned, every call reports every
migration, and each script is committed once, or was before. -/
theorem migrations_together (E : Engine D) (db : Database D) (list : List Migration) (n : Nat)
    {result : MigrationResult} {final : Database D}
    (hlone : applyMigrations E db list = (.ok result, final)) (actions : List Action)
    (hmeets : Meets (System.step E) (BeginsUnrecorded E) (System.start db list n) actions) :
    let s := (System.start db list n).run E actions
    (∀ p ∈ s.calls, p.ended = true → ∃ r, p = .returned r ∧ Reported r list) ∧
    ((∃ p ∈ s.calls, p.ended = false) → ∃ (i : Nat) (p : Phase D), s.calls[i]? = some p ∧
      (p.advance E s.db (s.locked i) none).1.work < p.work) ∧
    (∀ id, s.commits E id ≤ 1 ∧ (db.checksum? E id ≠ none → s.commits E id = 0)) ∧
    ((∃ p ∈ s.calls, p.ended = true) → s.db = final ∧
      ∀ m ∈ list, s.commits E m.id = if db.checksum? E m.id = none then 1 else 0) := by
  intro s
  have hend : Together E list db final s :=
    Meets.invariant (I := Together E list db final) (fun s a ha h => h.step ha) actions hmeets
      (.start (completes_of_applyFrom _ _ _ _ _ hlone) n)
  have hreturned : ∀ p ∈ s.calls, p.ended = true →
      ∃ r, p = .returned r ∧ Recorded E s.db list ∧ Reported r list := by
    intro p hp hended
    have htrack := (hend.calls.each p hp).2
    cases p with
    | returned r => exact ⟨r, rfl, htrack⟩
    | threw => exact htrack.elim
    | crashed => exact htrack.elim
    | _ => exact absurd hended Bool.false_ne_true
  have hzero : ∀ id, db.checksum? E id ≠ none → s.commits E id = 0 := by
    intro id hid
    refine List.count_eq_zero.mpr fun hmem => hid ?_
    obtain ⟨m, hm, htext⟩ := List.mem_map.mp hmem
    rw [← checksum?_congr db htext, hend.log.fresh m hm]
  refine ⟨fun p hp hended => ?_, exists_work_lt s, fun id => ⟨?_, hzero id⟩, ?_⟩
  · obtain ⟨r, hr, -, hrep⟩ := hreturned p hp hended
    exact ⟨r, hr, hrep⟩
  · exact List.nodup_iff_count_le_one.mp hend.log.once _
  · intro hany
    obtain ⟨p, hp, hended⟩ := hany
    obtain ⟨r, rfl, hrec, -⟩ := hreturned p hp hended
    have hcreated : s.db.migrations ≠ none := (hend.calls.each _ hp).1
    have hdb := hend.completes
    rw [createMigrations_of_some hcreated] at hdb
    refine ⟨(hrec.completes hdb).symm, fun m hm => ?_⟩
    split
    · rename_i hnone
      have hsome : s.db.checksum? E m.id ≠ none := by
        rw [(hrec m hm).2]
        exact Option.some_ne_none _
      obtain h | h := (hend.log.recorded m.id).mp hsome
      · exact absurd hnone h
      · exact List.count_eq_one_of_mem hend.log.once h
    · rename_i hsome
      exact hzero m.id hsome

/-- SQLite on the one script `itemsMigration`; the data is whether the table is
there. -/
def itemsEngine : Engine Bool where
  text := toWellFormed
  sha256 _ := js "c7a7a3b8b8c03ce0d6a33a5a97734d246fb9574ea67f3e93b0a6710facc4010b"
  exec _ there := if there then .error (.error (js "table items already exists")) else .ok true

def itemsMigration : Migration :=
  ⟨js "0001-items", js "CREATE TABLE items(id INTEGER PRIMARY KEY);"⟩

/-- One call runs to its end before the other starts. -/
theorem migrations_in_turn :
    ((System.start ⟨none, false⟩ [itemsMigration] 2).run itemsEngine
      ([0, 0, 0, 0, 0, 0, 0, 1, 1, 1].map fun i => .advance i none)).db =
        (applyMigrations itemsEngine ⟨none, false⟩ [itemsMigration]).2 := by
  obtain ⟨-, -, -, hreturned⟩ := migrations_together itemsEngine ⟨none, false⟩ [itemsMigration] 2
    (show applyMigrations itemsEngine ⟨none, false⟩ [itemsMigration] =
      (.ok ⟨[js "0001-items"], []⟩, _) from rfl)
    ([0, 0, 0, 0, 0, 0, 0, 1, 1, 1].map fun i => .advance i none) (by decide)
  exact (hreturned ⟨.returned ⟨[js "0001-items"], []⟩, List.mem_of_getElem? (i := 0) rfl, rfl⟩).1

/-- Both calls find the migration unrecorded; the one that begins second runs
its script again and throws. -/
theorem second_call_throws :
    ((System.start ⟨none, false⟩ [itemsMigration] 2).run itemsEngine
      ([0, 0, 1, 1, 0, 0, 0, 0, 1, 1].map fun i => .advance i none)).calls[1]? =
        some (.threw (.error (js "table items already exists"))) := rfl

end Benchhand.Storage
