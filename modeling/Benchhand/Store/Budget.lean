/-
Benchhand.Store.Budget — a list filled under a budget.

Items come one after another, each with a size. `keep` takes every item that
still fits and goes on behind one that does not, so a small item can be kept
behind a large one that was not: what is kept is a prefix exactly when that
never happens (`keep_prefix_iff`).
-/
import Mathlib.Algebra.Order.BigOperators.Group.List
import Mathlib.Algebra.Order.Ring.Nat
import Mathlib.Data.List.Induction

namespace Benchhand.Store

variable {α : Type} {size : α → Nat}

/-- At most so many items, at most so many bytes. -/
structure Budget where
  count : Nat
  bytes : Nat
  deriving DecidableEq

instance : LE Budget := ⟨fun a b => a.count ≤ b.count ∧ a.bytes ≤ b.bytes⟩

/-- The bytes of a list. -/
def total (size : α → Nat) (l : List α) : Nat := (l.map size).sum

@[simp] theorem total_nil : total size [] = 0 := rfl

@[simp] theorem total_concat (l : List α) (a : α) :
    total size (l ++ [a]) = total size l + size a := by
  simp [total]

theorem total_le_of_sublist {l l' : List α} (h : l.Sublist l') : total size l ≤ total size l' :=
  (h.map size).sum_le_sum fun n _ => Nat.zero_le n

namespace Budget

/-- A list that the budget has room for. -/
def Within (limit : Budget) (size : α → Nat) (l : List α) : Prop :=
  l.length ≤ limit.count ∧ total size l ≤ limit.bytes

/-- One more item behind a list. -/
def Fits (limit : Budget) (size : α → Nat) (l : List α) (a : α) : Prop :=
  l.length < limit.count ∧ total size l + size a ≤ limit.bytes

instance (limit : Budget) (size : α → Nat) (l : List α) (a : α) :
    Decidable (limit.Fits size l a) := inferInstanceAs (Decidable (_ ∧ _))

/-- One item more, if it fits. -/
def pick (limit : Budget) (size : α → Nat) (l : List α) (a : α) : List α :=
  if limit.Fits size l a then l ++ [a] else l

/-- The items that are kept. -/
def keep (limit : Budget) (size : α → Nat) (l : List α) : List α := l.foldl (limit.pick size) []

/-- Behind an item that does not fit there is none that would. -/
def NoLaterFits (limit : Budget) (size : α → Nat) (l : List α) : Prop :=
  ∀ before a after, l = before ++ a :: after → limit.Within size before →
    ¬ limit.Fits size before a → ∀ b ∈ after, ¬ limit.Fits size before b

variable {limit : Budget} {l : List α} {a : α}

/-! ## One item -/

theorem pick_pos (h : limit.Fits size l a) : limit.pick size l a = l ++ [a] := if_pos h

theorem pick_neg (h : ¬ limit.Fits size l a) : limit.pick size l a = l := if_neg h

theorem Within.nil : limit.Within size [] := ⟨Nat.zero_le _, Nat.zero_le _⟩

theorem Fits.within (h : limit.Fits size l a) : limit.Within size (l ++ [a]) := by
  refine ⟨?_, ?_⟩
  · rw [List.length_append]
    exact h.1
  · rw [total_concat]
    exact h.2

theorem Within.fits (h : limit.Within size (l ++ [a])) : limit.Fits size l a := by
  obtain ⟨hcount, hbytes⟩ := h
  rw [List.length_append] at hcount
  rw [total_concat] at hbytes
  exact ⟨hcount, hbytes⟩

theorem Within.of_sublist {l' : List α} (h : limit.Within size l) (hl : l'.Sublist l) :
    limit.Within size l' :=
  ⟨hl.length_le.trans h.1, (total_le_of_sublist hl).trans h.2⟩

theorem Within.mono {limit' : Budget} (h : limit.Within size l) (hle : limit ≤ limit') :
    limit'.Within size l := ⟨h.1.trans hle.1, h.2.trans hle.2⟩

/-! ## What is kept -/

@[simp] theorem keep_nil : limit.keep size [] = [] := rfl

theorem keep_concat : limit.keep size (l ++ [a]) = limit.pick size (limit.keep size l) a :=
  List.foldl_append

theorem keep_append (l l' : List α) :
    limit.keep size (l ++ l') = l'.foldl (limit.pick size) (limit.keep size l) :=
  List.foldl_append

theorem keep_within : limit.Within size (limit.keep size l) := by
  induction l using List.reverseRecOn with
  | nil => exact .nil
  | append_singleton l a ih =>
      rw [keep_concat]
      by_cases hfits : limit.Fits size (limit.keep size l) a
      · rw [pick_pos hfits]
        exact hfits.within
      · rw [pick_neg hfits]
        exact ih

theorem keep_sublist : (limit.keep size l).Sublist l := by
  induction l using List.reverseRecOn with
  | nil => exact .slnil
  | append_singleton l a ih =>
      rw [keep_concat]
      by_cases hfits : limit.Fits size (limit.keep size l) a
      · rw [pick_pos hfits]
        exact ih.append (List.Sublist.refl [a])
      · rw [pick_neg hfits]
        exact ih.trans (List.sublist_append_left l [a])

/-- A list within the budget is kept. -/
theorem keep_eq_self (h : limit.Within size l) : limit.keep size l = l := by
  induction l using List.reverseRecOn with
  | nil => rfl
  | append_singleton l a ih =>
      rw [keep_concat, ih (h.of_sublist (List.sublist_append_left l [a])), pick_pos h.fits]

/-- Whether the last item was kept too. -/
theorem keep_concat_eq_iff :
    limit.keep size (l ++ [a]) = l ++ [a] ↔
      limit.keep size l = l ∧ limit.Fits size (limit.keep size l) a := by
  rw [keep_concat]
  by_cases hfits : limit.Fits size (limit.keep size l) a
  · rw [pick_pos hfits, List.append_left_inj]
    exact (and_iff_left hfits).symm
  · rw [pick_neg hfits]
    refine ⟨fun h => ?_, fun h => absurd h.2 hfits⟩
    have hlength : (limit.keep size l).length ≤ l.length := keep_sublist.length_le
    rw [h, List.length_append, List.length_singleton] at hlength
    omega

/-! ## Prefixes -/

theorem foldl_pick_of_none {kept : List α} :
    ∀ l : List α, (∀ b ∈ l, ¬ limit.Fits size kept b) → l.foldl (limit.pick size) kept = kept
  | [], _ => rfl
  | b :: l, h => by
      rw [List.foldl_cons, pick_neg (h b List.mem_cons_self)]
      exact foldl_pick_of_none l fun c hc => h c (List.mem_cons_of_mem b hc)

theorem prefix_foldl_pick : ∀ (l kept : List α), kept <+: l.foldl (limit.pick size) kept
  | [], kept => List.prefix_rfl
  | b :: l, kept => by
      rw [List.foldl_cons]
      refine List.IsPrefix.trans ?_ (prefix_foldl_pick l _)
      unfold pick
      split
      · exact List.prefix_append kept [b]
      · exact List.prefix_rfl

/-- An item that fits is kept, or one before it. -/
theorem exists_prefix_foldl_pick {kept : List α} :
    ∀ l : List α, (∃ b ∈ l, limit.Fits size kept b) →
      ∃ b, limit.Fits size kept b ∧ kept ++ [b] <+: l.foldl (limit.pick size) kept
  | [], h => by
      obtain ⟨b, hb, -⟩ := h
      exact absurd hb List.not_mem_nil
  | b :: l, h => by
      rw [List.foldl_cons]
      by_cases hfits : limit.Fits size kept b
      · rw [pick_pos hfits]
        exact ⟨b, hfits, prefix_foldl_pick l _⟩
      · rw [pick_neg hfits]
        refine exists_prefix_foldl_pick l ?_
        obtain ⟨c, hc, hfits'⟩ := h
        obtain rfl | hc := List.mem_cons.mp hc
        · exact absurd hfits' hfits
        · exact ⟨c, hc, hfits'⟩

theorem foldl_pick_isPrefix : ∀ (l kept : List α), limit.Within size kept →
    (∀ before a after, kept ++ l = before ++ a :: after → limit.Within size before →
      ¬ limit.Fits size before a → ∀ b ∈ after, ¬ limit.Fits size before b) →
    l.foldl (limit.pick size) kept <+: kept ++ l
  | [], kept, _, _ => by
      rw [List.append_nil]
      exact List.prefix_rfl
  | a :: l, kept, hkept, hlater => by
      rw [List.foldl_cons]
      by_cases hfits : limit.Fits size kept a
      · rw [List.append_cons] at hlater
        rw [pick_pos hfits, List.append_cons kept a l]
        exact foldl_pick_isPrefix l (kept ++ [a]) hfits.within hlater
      · rw [pick_neg hfits, foldl_pick_of_none l (hlater kept a l rfl hkept hfits)]
        exact List.prefix_append kept (a :: l)

/-- What is kept is a prefix exactly when nothing fits behind an item that
does not. -/
theorem keep_prefix_iff : limit.keep size l <+: l ↔ limit.NoLaterFits size l := by
  constructor
  · intro hprefix before a after hl hbefore hfits b hb hfitsb
    have hkeep : limit.keep size l = after.foldl (limit.pick size) before := by
      rw [hl, keep_append, keep_eq_self hbefore, List.foldl_cons, pick_neg hfits]
    obtain ⟨c, hfitsc, hc⟩ := exists_prefix_foldl_pick after ⟨b, hb, hfitsb⟩
    -- the list goes on with `a` there, what is kept with an item that fits
    have hboth : before ++ [c] <+: before ++ a :: after := by
      rw [← hl]
      exact (hkeep ▸ hc).trans hprefix
    have hca : c = a := by
      simpa using List.prefix_append_right_inj before |>.mp hboth
    exact hfits (hca ▸ hfitsc)
  · exact fun hlater => foldl_pick_isPrefix l [] .nil hlater

/-- With a larger budget the kept prefix goes on. -/
theorem keep_prefix_keep {limit' : Budget} (hle : limit ≤ limit')
    (h : limit.keep size l <+: l) : limit.keep size l <+: limit'.keep size l := by
  obtain ⟨rest, hrest⟩ := h
  have hkeep : limit'.keep size (limit.keep size l ++ rest) =
      rest.foldl (limit'.pick size) (limit.keep size l) := by
    rw [keep_append, keep_eq_self (keep_within.mono hle)]
  rw [hrest] at hkeep
  rw [hkeep]
  exact prefix_foldl_pick rest _

end Budget

end Benchhand.Store
