/-
Benchhand.Store.Sorting — stable sorting by a key.

A comparison that is the order of a key sorts a list into the order of the
keys. Elements with different keys are sorted the same however they come
(`insertionSort_eq_of_perm`); of elements with one key, the one that came first
is first (`find?_insertionSort_cons`).
-/
import Mathlib.Data.List.Forall2
import Mathlib.Data.List.Sort

namespace Benchhand.Store

variable {α κ : Type} [LinearOrder κ] {key : α → κ} {le : α → α → Prop} [DecidableRel le]

/-- The comparison is the order of the key. -/
def ByKey (key : α → κ) (le : α → α → Prop) : Prop := ∀ a b, le a b ↔ key a ≤ key b

theorem pairwise_insertionSort (hle : ByKey key le) (l : List α) :
    (l.insertionSort le).Pairwise fun a b => key a ≤ key b := by
  have : Std.Total le := ⟨fun a b => by rw [hle, hle]; exact le_total _ _⟩
  have : IsTrans α le := ⟨fun a b c => by rw [hle, hle, hle]; exact le_trans⟩
  exact (List.pairwise_insertionSort le l).imp fun {a b} hab => (hle a b).mp hab

/-- Elements that differ have different keys: their order is one. -/
theorem insertionSort_eq_of_perm (hle : ByKey key le) {l l' : List α} (hperm : l.Perm l')
    (hkey : ∀ a ∈ l, ∀ b ∈ l, key a = key b → a = b) :
    l.insertionSort le = l'.insertionSort le := by
  have hmem {a : α} (ha : a ∈ l.insertionSort le) : a ∈ l := (List.mem_insertionSort le).mp ha
  have hmem' {a : α} (ha : a ∈ l'.insertionSort le) : a ∈ l :=
    hperm.mem_iff.mpr ((List.mem_insertionSort le).mp ha)
  refine List.Perm.eq_of_pairwise (fun a b ha hb hab hba => ?_) (pairwise_insertionSort hle l)
    (pairwise_insertionSort hle l') ?_
  · exact hkey a (hmem ha) b (hmem' hb) (le_antisymm hab hba)
  · exact (List.perm_insertionSort le l).trans
      (hperm.trans (List.perm_insertionSort le l').symm)

theorem find?_orderedInsert (hle : ByKey key le) {a : α} {p : α → Bool}
    (hp : ∀ b, p b = true ↔ key b = key a) : ∀ l : List α,
    (l.orderedInsert le a).find? p = some a
  | [] => List.find?_cons_of_pos ((hp a).mpr rfl)
  | b :: rest => by
      rw [List.orderedInsert]
      split
      · exact List.find?_cons_of_pos ((hp a).mpr rfl)
      · rename_i hab
        have hne : ¬ p b = true := fun hb => hab ((hle a b).mpr ((hp b).mp hb).ge)
        rw [List.find?_cons_of_neg hne]
        exact find?_orderedInsert hle hp rest

/-- Of the elements with its key the first one of a list is sorted first. -/
theorem find?_insertionSort_cons (hle : ByKey key le) {a : α} {p : α → Bool}
    (hp : ∀ b, p b = true ↔ key b = key a) (l : List α) :
    ((a :: l).insertionSort le).find? p = some a :=
  find?_orderedInsert hle hp _

section
variable {rel : α → α → Prop}

theorem forall₂_orderedInsert (hle : ByKey key le) (hrel : ∀ a b, rel a b → key a = key b)
    {a b : α} (hab : rel a b) {l l' : List α} (h : List.Forall₂ rel l l') :
    List.Forall₂ rel (l.orderedInsert le a) (l'.orderedInsert le b) := by
  induction h with
  | nil => exact .cons hab .nil
  | @cons c d l l' hcd hrest ih =>
      have hiff : le a c ↔ le b d := by
        rw [hle, hle, hrel a b hab, hrel c d hcd]
      rw [List.orderedInsert, List.orderedInsert]
      by_cases hac : le a c
      · rw [if_pos hac, if_pos (hiff.mp hac)]
        exact .cons hab (.cons hcd hrest)
      · rw [if_neg hac, if_neg (mt hiff.mpr hac)]
        exact .cons hcd ih

/-- Elements with the same keys are sorted alike. -/
theorem forall₂_insertionSort (hle : ByKey key le) (hrel : ∀ a b, rel a b → key a = key b)
    {l l' : List α} (h : List.Forall₂ rel l l') :
    List.Forall₂ rel (l.insertionSort le) (l'.insertionSort le) := by
  induction h with
  | nil => exact .nil
  | cons hab _ ih => exact forall₂_orderedInsert hle hrel hab ih

end

/-! ## Parts -/

/-- Parts of the same lengths are the same when they are put together the same. -/
theorem eq_of_flatMap_eq {β : Type} {f g : α → List β} : ∀ {l : List α},
    (∀ a ∈ l, (f a).length = (g a).length) → l.flatMap f = l.flatMap g → ∀ a ∈ l, f a = g a
  | [], _, _ => fun _ ha => absurd ha List.not_mem_nil
  | a :: rest, hlength, heq => by
      obtain ⟨ha, hrest⟩ := List.forall_mem_cons.mp hlength
      rw [List.flatMap_cons, List.flatMap_cons] at heq
      obtain ⟨hfirst, hothers⟩ := List.append_inj heq ha
      exact List.forall_mem_cons.mpr ⟨hfirst, eq_of_flatMap_eq hrest hothers⟩

end Benchhand.Store
