/-
Benchhand.Store.Table — a keyed table and the statements that change it.

The rows of a `Table` have different keys, which the type guarantees, so a
select by key returns one row or none. An insert is refused when the key is
taken; an update visits every row and reports how many it changed. A statement
by key changes at most the row of that key (`find?_updateKey`,
`changes_updateKey`), a bulk update changes each row on its own
(`find?_updateWhere`). `UniqueOn` is a UNIQUE constraint on columns: an insert
keeps it when the columns are not taken, an update when it leaves them alone.
-/
import Mathlib.Data.List.Lookmap
import Mathlib.Data.List.Nodup

namespace Benchhand.Store

/-- Rows by key. -/
structure Table (K V : Type) where
  entries : List (K × V)
  nodup : (entries.map Prod.fst).Nodup

namespace Table

variable {K V : Type}

/-- A table without rows. -/
def empty : Table K V := ⟨[], List.nodup_nil⟩

/-- `UPDATE … SET … WHERE …`: the new rows and the number of changed ones. -/
def updateWhere (t : Table K V) (guard : K → V → Bool) (f : V → V) : Table K V × Nat :=
  (⟨t.entries.map fun e => if guard e.1 e.2 then (e.1, f e.2) else e, by
      have hkeys : ((fun e : K × V => if guard e.1 e.2 then (e.1, f e.2) else e)) =
          fun e => (e.1, if guard e.1 e.2 then f e.2 else e.2) := by
        funext e; split <;> rfl
      rw [hkeys, List.map_map]
      exact t.nodup⟩,
    t.entries.countP fun e => guard e.1 e.2)

variable [DecidableEq K]

/-- `SELECT … WHERE key = ?`. -/
def find? (t : Table K V) (key : K) : Option V := t.entries.lookup key

theorem lookup_eq_none_iff {entries : List (K × V)} {key : K} :
    entries.lookup key = none ↔ key ∉ entries.map Prod.fst := by
  rw [List.lookup_eq_none_iff]
  simp only [bne_iff_ne, ne_eq, List.mem_map, not_exists, not_and]
  exact ⟨fun h e he heq => h e he heq.symm, fun h e he heq => h e he heq.symm⟩

/-- `INSERT`: none when the key is taken. -/
def insert? (t : Table K V) (key : K) (row : V) : Option (Table K V) :=
  if h : t.find? key = none then
    some ⟨t.entries ++ [(key, row)], by
      rw [List.map_append, List.nodup_append]
      refine ⟨t.nodup, List.nodup_singleton _, fun a ha b hb => ?_⟩
      rintro rfl
      rw [List.mem_singleton.mp hb] at ha
      exact lookup_eq_none_iff.mp h ha⟩
  else none

/-- An update of the row with a key. -/
def updateKey (t : Table K V) (key : K) (guard : V → Bool) (f : V → V) : Table K V × Nat :=
  t.updateWhere (fun k v => k == key && guard v) f

/-- `DELETE … WHERE key = ?`. -/
def erase (t : Table K V) (key : K) : Table K V :=
  ⟨t.entries.filter fun e => e.1 ≠ key, t.nodup.sublist ((List.filter_sublist).map _)⟩

/-- `INSERT OR REPLACE`. -/
def put (t : Table K V) (key : K) (row : V) : Table K V :=
  ⟨(key, row) :: (t.erase key).entries, by
    rw [List.map_cons, List.nodup_cons]
    refine ⟨fun hmem => ?_, (t.erase key).nodup⟩
    obtain ⟨e, he, hkey⟩ := List.mem_map.mp hmem
    exact absurd hkey (by simpa using (List.mem_filter.mp he).2)⟩

/-! ## What a statement does to a row -/

@[simp] theorem find?_empty (key : K) : (empty : Table K V).find? key = none := rfl

theorem find?_updateWhere (t : Table K V) (guard : K → V → Bool) (f : V → V) (key : K) :
    (t.updateWhere guard f).1.find? key
      = (t.find? key).map fun v => if guard key v then f v else v := by
  unfold updateWhere find?
  dsimp only
  induction t.entries with
  | nil => rfl
  | cons e entries ih =>
      obtain ⟨k, v⟩ := e
      rw [List.map_cons]
      by_cases hkey : key = k
      · subst hkey
        split <;> rename_i hg <;> simp [hg]
      · have hbeq : (key == k) = false := beq_eq_false_iff_ne.mpr hkey
        split <;> simp [List.lookup_cons, hbeq, ih]

theorem find?_insert? {t t' : Table K V} {key : K} {row : V} (h : t.insert? key row = some t') :
    t.find? key = none ∧
    ∀ k, t'.find? k = if k = key then some row else t.find? k := by
  unfold insert? at h
  split at h
  · rename_i hnone
    refine ⟨hnone, fun k => ?_⟩
    rw [← Option.some.inj h]
    unfold find? at hnone ⊢
    rw [List.lookup_append]
    by_cases hk : k = key
    · subst hk
      simp [hnone]
    · have hbeq : (k == key) = false := beq_eq_false_iff_ne.mpr hk
      simp [hk, List.lookup_cons, hbeq]
  · exact absurd h (by simp)

theorem find?_erase (t : Table K V) (key k : K) :
    (t.erase key).find? k = if k = key then none else t.find? k := by
  unfold erase find?
  dsimp only
  induction t.entries with
  | nil => simp
  | cons e entries ih =>
      obtain ⟨k', v⟩ := e
      by_cases hkey : k' = key
      · subst hkey
        rw [List.filter_cons_of_neg (by simp), ih]
        split
        · rfl
        · rename_i hk
          rw [List.lookup_cons, beq_eq_false_iff_ne.mpr hk]
      · rw [List.filter_cons_of_pos (by simpa using hkey), List.lookup_cons, List.lookup_cons, ih]
        by_cases hk : k = k'
        · simp [hk, hkey]
        · simp [beq_eq_false_iff_ne.mpr hk]

theorem find?_put (t : Table K V) (key : K) (row : V) (k : K) :
    (t.put key row).find? k = if k = key then some row else t.find? k := by
  have herase := find?_erase t key k
  unfold find? at herase ⊢
  unfold put
  rw [List.lookup_cons]
  by_cases hk : k = key
  · simp [hk]
  · rw [beq_eq_false_iff_ne.mpr hk, herase, if_neg hk, if_neg hk]

theorem find?_updateKey (t : Table K V) (key : K) (guard : V → Bool) (f : V → V) (k : K) :
    (t.updateKey key guard f).1.find? k
      = if k = key then (t.find? k).map fun v => if guard v then f v else v else t.find? k := by
  rw [updateKey, find?_updateWhere]
  by_cases hk : k = key
  · simp [hk]
  · have hbeq : (k == key) = false := beq_eq_false_iff_ne.mpr hk
    simp [hk, hbeq]

/-- An update by key reports one row or none: whether the row is there and
meets the guard. -/
theorem changes_updateKey (t : Table K V) (key : K) (guard : V → Bool) (f : V → V) :
    (t.updateKey key guard f).2 = if (t.find? key).any guard then 1 else 0 := by
  have hcount : ∀ entries : List (K × V), (entries.map Prod.fst).Nodup →
      entries.countP (fun e => e.1 == key && guard e.2)
        = if (entries.lookup key).any guard then 1 else 0 := by
    intro entries
    induction entries with
    | nil => intro _; rfl
    | cons e entries ih =>
        obtain ⟨k, v⟩ := e
        intro hnodup
        rw [List.map_cons, List.nodup_cons] at hnodup
        rw [List.countP_cons, ih hnodup.2]
        by_cases hkey : key = k
        · subst hkey
          -- no later row has the key
          rw [lookup_eq_none_iff.mpr hnodup.1]
          simp
        · have hbeq : (k == key) = false := beq_eq_false_iff_ne.mpr (Ne.symm hkey)
          have hbeq' : (key == k) = false := beq_eq_false_iff_ne.mpr hkey
          simp [List.lookup_cons, hbeq, hbeq']
  exact hcount t.entries t.nodup

/-- An update by key: one row is there, meets the guard and is changed, or
nothing is. -/
theorem updateKey_cases (t : Table K V) (key : K) (guard : V → Bool) (f : V → V) :
    ((t.updateKey key guard f).2 = 1 ∧ ∃ row, t.find? key = some row ∧ guard row = true ∧
      ∀ k, (t.updateKey key guard f).1.find? k = if k = key then some (f row) else t.find? k) ∨
    ((t.updateKey key guard f).2 ≠ 1 ∧ (∀ row, t.find? key = some row → guard row = false) ∧
      ∀ k, (t.updateKey key guard f).1.find? k = t.find? k) := by
  rw [changes_updateKey]
  cases hrow : t.find? key with
  | none =>
      refine .inr ⟨by simp, by simp, fun k => ?_⟩
      rw [find?_updateKey]
      split
      · rename_i hk; rw [hk, hrow]; rfl
      · rfl
  | some row =>
      cases hguard : guard row with
      | true =>
          refine .inl ⟨by simp [hguard], row, rfl, hguard, fun k => ?_⟩
          rw [find?_updateKey]
          split
          · rename_i hk; simp [hk, hrow, hguard]
          · rfl
      | false =>
          refine .inr ⟨by simp [hguard], by simp [hguard], fun k => ?_⟩
          rw [find?_updateKey]
          split
          · rename_i hk; simp [hk, hrow, hguard]
          · rfl

/-! ## Unique columns -/

section
variable {I : Type} {index : V → I} {t t' : Table K V} {key : K} {row : V}

/-- `UNIQUE(…)`: rows with the same columns have the same key. -/
def UniqueOn (t : Table K V) (index : V → I) : Prop :=
  ∀ k k' v v', t.find? k = some v → t.find? k' = some v' → index v = index v' → k = k'

/-- The row with these columns. -/
def findBy? [DecidableEq I] (t : Table K V) (index : V → I) (i : I) : Option (K × V) :=
  t.entries.find? fun e => index e.2 = i

theorem mem_entries_iff {v : V} : (key, v) ∈ t.entries ↔ t.find? key = some v := by
  have hmem : ∀ entries : List (K × V), (entries.map Prod.fst).Nodup →
      ((key, v) ∈ entries ↔ entries.lookup key = some v) := by
    intro entries
    induction entries with
    | nil => simp
    | cons e entries ih =>
        obtain ⟨k, v'⟩ := e
        intro hnodup
        rw [List.map_cons, List.nodup_cons] at hnodup
        rw [List.mem_cons, List.lookup_cons, ih hnodup.2]
        by_cases hkey : key = k
        · subst hkey
          -- no later row has the key
          rw [lookup_eq_none_iff.mpr hnodup.1]
          simp [eq_comm]
        · simp [hkey, beq_eq_false_iff_ne.mpr hkey]
  exact hmem t.entries t.nodup

theorem findBy?_eq_some [DecidableEq I] {i : I} {k : K} {v : V}
    (h : t.findBy? index i = some (k, v)) : t.find? k = some v ∧ index v = i :=
  ⟨mem_entries_iff.mp (List.mem_of_find?_eq_some h), by simpa using List.find?_some h⟩

theorem findBy?_eq_none [DecidableEq I] {i : I} (h : t.findBy? index i = none) {k : K} {v : V}
    (hk : t.find? k = some v) : index v ≠ i := by
  have hnone := List.find?_eq_none.mp h (k, v) (mem_entries_iff.mpr hk)
  simpa using hnone

theorem UniqueOn.empty : (empty : Table K V).UniqueOn index := nofun

theorem UniqueOn.insert [DecidableEq I] (h : t.UniqueOn index)
    (hfree : t.findBy? index (index row) = none) (ht : t.insert? key row = some t') :
    t'.UniqueOn index := by
  obtain ⟨-, hfind⟩ := find?_insert? ht
  intro k k' v v' hv hv' heq
  rw [hfind] at hv hv'
  split at hv <;> split at hv'
  · simp_all
  · obtain rfl := Option.some.inj hv
    exact absurd heq.symm (findBy?_eq_none hfree hv')
  · obtain rfl := Option.some.inj hv'
    exact absurd heq (findBy?_eq_none hfree hv)
  · exact h k k' v v' hv hv' heq

theorem UniqueOn.updateWhere (h : t.UniqueOn index) {f : V → V} (hf : ∀ v, index (f v) = index v)
    (guard : K → V → Bool) : (t.updateWhere guard f).1.UniqueOn index := by
  have hindex : ∀ (k : K) (v : V), index (if guard k v then f v else v) = index v := by
    intro k v
    split
    · exact hf v
    · rfl
  intro k k' v v' hv hv' heq
  rw [find?_updateWhere] at hv hv'
  obtain ⟨w, hw, rfl⟩ := Option.map_eq_some_iff.mp hv
  obtain ⟨w', hw', rfl⟩ := Option.map_eq_some_iff.mp hv'
  rw [hindex, hindex] at heq
  exact h k k' w w' hw hw' heq

theorem UniqueOn.updateKey (h : t.UniqueOn index) {f : V → V} (hf : ∀ v, index (f v) = index v)
    (key : K) (guard : V → Bool) : (t.updateKey key guard f).1.UniqueOn index :=
  h.updateWhere hf _

end

end Table

end Benchhand.Store
