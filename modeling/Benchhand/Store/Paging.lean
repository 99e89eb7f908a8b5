/-
Benchhand.Store.Paging — pages of a collection that changes between them.

Entries are sorted by a key of a linear order. A page is cut out of a snapshot
behind the last key of the page before it (`Page.Cut`), and `Pages` is a
sequence of such pages. Whatever the snapshots have to do with each other, the
keys increase strictly and no key that all of them have is left out; over one
collection the pages come to an end.
-/
import Mathlib.Data.List.Pairwise
import Mathlib.Data.List.Sort
import Mathlib.Order.Lattice

namespace Benchhand.Store

variable {β K : Type} [LinearOrder K]

/-- The entries with a key above `after`. -/
def behind (key : β → K) (after : Option K) (entries : List β) : List β :=
  entries.filter fun e => ∀ k ∈ after, k < key e

/-- A snapshot, the entries of it that are on the page, and those left for
later pages. -/
structure Page (β : Type) where
  snapshot : List β
  entries : List β
  tail : List β

/-- The page is the first part behind a key, and is not empty without need. -/
structure Page.Cut (key : β → K) (after : Option K) (p : Page β) : Prop where
  sorted : p.snapshot.Pairwise fun a b => key a < key b
  cut : behind key after p.snapshot = p.entries ++ p.tail
  advances : p.entries = [] → p.tail = []

/-- One page after the other, each behind the last key of the one before. -/
inductive Pages (key : β → K) : Option K → List (Page β) → Prop
  | last {after p} (h : Page.Cut key after p) : Pages key after [p]
  | next {after p e ps} (h : Page.Cut key after p) (he : p.entries.getLast? = some e)
      (htail : p.tail ≠ []) (hrest : Pages key (some (key e)) ps) : Pages key after (p :: ps)

/-- The entries of all pages. -/
def collected (ps : List (Page β)) : List β := ps.flatMap Page.entries

variable {key : β → K} {after : Option K} {p : Page β} {ps : List (Page β)}

theorem mem_behind {e : β} {entries : List β} :
    e ∈ behind key after entries ↔ e ∈ entries ∧ ∀ k ∈ after, k < key e := by
  simp [behind]

/-- Dropping up to the first greater entry leaves the greater entries. -/
theorem drop_findIdx? (k : K) : ∀ {l : List β},
    l.Pairwise (fun a b => key a < key b) →
    l.drop ((l.findIdx? fun e => decide (k < key e)).getD l.length) = behind key (some k) l
  | [], _ => rfl
  | e :: l, h => by
      obtain ⟨hgt, hsorted⟩ := List.pairwise_cons.mp h
      have ih := drop_findIdx? k hsorted
      rw [behind, List.findIdx?_cons, List.filter_cons]
      by_cases hlt : k < key e
      · -- every later entry is greater too
        have hall : l.filter (fun e => ∀ k' ∈ some k, k' < key e) = l :=
          List.filter_eq_self.mpr fun b hb => by simpa using hlt.trans (hgt b hb)
        rw [hall]
        simp [hlt]
      · rw [behind] at ih
        rw [← ih]
        cases hfind : l.findIdx? fun e => decide (k < key e) <;> simp [hlt]

namespace Page.Cut

theorem pairwise (h : Page.Cut key after p) :
    (p.entries ++ p.tail).Pairwise fun a b => key a < key b :=
  h.cut ▸ h.sorted.filter _

theorem entries_gt (h : Page.Cut key after p) {e : β} (he : e ∈ p.entries) :
    ∀ k ∈ after, k < key e :=
  (mem_behind.mp (h.cut ▸ List.mem_append_left _ he)).2

/-- The last entry of a page has its greatest key. -/
theorem le_last (h : Page.Cut key after p) {e last : β} (hlast : p.entries.getLast? = some last)
    (he : e ∈ p.entries) : key e ≤ key last := by
  obtain ⟨init, hinit⟩ := List.getLast?_eq_some_iff.mp hlast
  have hsorted := (List.pairwise_append.mp h.pairwise).1
  rw [hinit] at he hsorted
  obtain he | he := List.mem_append.mp he
  · exact ((List.pairwise_append.mp hsorted).2.2 e he last (List.mem_singleton_self _)).le
  · exact (List.mem_singleton.mp he ▸ le_rfl)

/-- What is left has greater keys than the page. -/
theorem last_lt (h : Page.Cut key after p) {e last : β} (hlast : p.entries.getLast? = some last)
    (he : e ∈ p.tail) : key last < key e :=
  (List.pairwise_append.mp h.pairwise).2.2 last (List.mem_of_getLast? hlast) e he

end Page.Cut

/-- The keys increase strictly over all pages, from `after` on. -/
theorem Pages.pairwise (h : Pages key after ps) :
    (collected ps).Pairwise (fun a b => key a < key b) ∧
      ∀ e ∈ collected ps, ∀ k ∈ after, k < key e := by
  induction h with
  | last h =>
      rw [collected, List.flatMap_singleton]
      exact ⟨(List.pairwise_append.mp h.pairwise).1, fun e he => h.entries_gt he⟩
  | @next after p last ps h hlast _ _ ih =>
      rw [collected, List.flatMap_cons]
      refine ⟨List.pairwise_append.mpr ⟨(List.pairwise_append.mp h.pairwise).1, ih.1, ?_⟩, ?_⟩
      · intro a ha b hb
        exact (h.le_last hlast ha).trans_lt (ih.2 b hb _ rfl)
      · intro e he k hk
        obtain he | he := List.mem_append.mp he
        · exact h.entries_gt he k hk
        · exact (h.entries_gt (List.mem_of_getLast? hlast) k hk).trans (ih.2 e he _ rfl)

theorem Pages.cut (h : Pages key after ps) : ∀ p ∈ ps, ∃ a, Page.Cut key a p := by
  induction h with
  | last h => exact fun q hq => List.mem_singleton.mp hq ▸ ⟨_, h⟩
  | next h _ _ _ ih =>
      intro q hq
      obtain rfl | hq := List.mem_cons.mp hq
      · exact ⟨_, h⟩
      · exact ih q hq

/-- What is on a page is in its snapshot. -/
theorem Pages.mem_snapshot (h : Pages key after ps) {e : β} (he : e ∈ collected ps) :
    ∃ p ∈ ps, e ∈ p.snapshot := by
  obtain ⟨p, hp, he⟩ := List.mem_flatMap.mp he
  obtain ⟨a, hcut⟩ := h.cut p hp
  exact ⟨p, hp, (mem_behind.mp (hcut.cut ▸ List.mem_append_left _ he)).1⟩

/-- A key of every snapshot is on some page, once the pages have come past it
or to an end. -/
theorem Pages.exists_mem (h : Pages key after ps) {k : K} (hafter : ∀ a ∈ after, a < k)
    (hall : ∀ p ∈ ps, ∃ e ∈ p.snapshot, key e = k)
    (hpast : (∀ p ∈ ps.getLast?, p.tail = []) ∨ ∃ e ∈ collected ps, k ≤ key e) :
    ∃ e ∈ collected ps, key e = k := by
  induction h with
  | @last after p h =>
      obtain ⟨e, he, rfl⟩ := hall p (List.mem_singleton_self _)
      have hmem : e ∈ p.entries ++ p.tail := h.cut ▸ mem_behind.mpr ⟨he, hafter⟩
      rw [collected, List.flatMap_singleton] at hpast ⊢
      obtain hmem | hmem := List.mem_append.mp hmem
      · exact ⟨e, hmem, rfl⟩
      obtain hend | hpast := hpast
      · rw [hend p rfl] at hmem
        exact absurd hmem List.not_mem_nil
      · obtain ⟨x, hx, hle⟩ := hpast
        exact absurd ((List.pairwise_append.mp h.pairwise).2.2 x hx e hmem) hle.not_gt
  | @next after p last ps h hlast htail hrest ih =>
      obtain ⟨e, he, rfl⟩ := hall p List.mem_cons_self
      have hmem : e ∈ p.entries ++ p.tail := h.cut ▸ mem_behind.mpr ⟨he, hafter⟩
      rw [collected, List.flatMap_cons] at hpast ⊢
      obtain hmem | hmem := List.mem_append.mp hmem
      · exact ⟨e, List.mem_append_left _ hmem, rfl⟩
      have hlt := h.last_lt hlast hmem
      have hne : ps ≠ [] := by
        cases hrest <;> exact List.cons_ne_nil _ _
      have hpast' : (∀ p ∈ ps.getLast?, p.tail = []) ∨ ∃ x ∈ collected ps, key e ≤ key x := by
        refine hpast.imp (fun hend => ?_) fun hpast => ?_
        · rwa [List.getLast?_cons_of_ne_nil hne] at hend
        · obtain ⟨x, hx, hle⟩ := hpast
          obtain hx | hx := List.mem_append.mp hx
          · exact absurd ((h.le_last hlast hx).trans_lt hlt) hle.not_gt
          · exact ⟨x, hx, hle⟩
      obtain ⟨x, hx, hkey⟩ := ih (fun a ha => Option.some.inj ha ▸ hlt)
        (fun q hq => hall q (List.mem_cons_of_mem p hq)) hpast'
      exact ⟨x, List.mem_append_right _ hx, hkey⟩

/-- What is left of a page is what stands behind its last key. -/
theorem Page.Cut.behind_last (h : Page.Cut key after p) {last : β}
    (hlast : p.entries.getLast? = some last) :
    behind key (some (key last)) p.snapshot = p.tail := by
  have hmem := List.mem_of_getLast? hlast
  have htwice : behind key (some (key last)) p.snapshot =
      behind key (some (key last)) (behind key after p.snapshot) := by
    rw [behind, behind, behind, List.filter_filter]
    refine List.filter_congr fun e _ => ?_
    simp only [Option.mem_def, Option.some.injEq, forall_eq']
    by_cases hlt : key last < key e
    · have hafter : ∀ k, after = some k → k < key e := fun k hk =>
        (h.entries_gt hmem k hk).trans hlt
      simp only [hlt, decide_true, Bool.true_and]
      exact (decide_eq_true hafter).symm
    · simp [hlt]
  rw [htwice, h.cut, behind, List.filter_append]
  have hentries : p.entries.filter (fun e => ∀ k ∈ some (key last), k < key e) = [] :=
    List.filter_eq_nil_iff.mpr fun e he => by simpa using h.le_last hlast he
  have htail : p.tail.filter (fun e => ∀ k ∈ some (key last), k < key e) = p.tail :=
    List.filter_eq_self.mpr fun e he => by simpa using h.last_lt hlast he
  rw [hentries, htail, List.nil_append]

/-- Over one collection there are no more pages than entries, or one. -/
theorem Pages.length_le (h : Pages key after ps) {keys : List K}
    (hall : ∀ p ∈ ps, p.snapshot.map key = keys) :
    ps.length ≤ max 1 (keys.filter fun k => ∀ a ∈ after, a < k).length := by
  have hbehind : ∀ (a : Option K) (p : Page β), p.snapshot.map key = keys →
      (keys.filter fun k => ∀ b ∈ a, b < k).length = (behind key a p.snapshot).length := by
    intro a p hkeys
    rw [← hkeys, List.filter_map, List.length_map]
    rfl
  induction h with
  | last => exact le_max_left _ _
  | @next after p last ps h hlast htail hrest ih =>
      have hkeys := hall p List.mem_cons_self
      have hle := ih fun q hq => hall q (List.mem_cons_of_mem p hq)
      rw [hbehind _ p hkeys, h.behind_last hlast] at hle
      rw [hbehind _ p hkeys, h.cut, List.length_append, List.length_cons]
      have hentries := List.length_pos_of_mem (List.mem_of_getLast? hlast)
      have htail' := List.length_pos_of_ne_nil htail
      omega

end Benchhand.Store
