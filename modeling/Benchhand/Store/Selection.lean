/-
Benchhand.Store.Selection — the first element of each key.

`selectFirst` keeps the first element of each key and sets the others aside.
The two parts are the list again (`selectFirst_perm`), the keys of the first one
are different (`selectFirst_keys`), and before an element of the second one
there is one of the first with the same key (`selectFirst_before`).
-/
import Mathlib.Data.List.Perm.Basic

namespace Benchhand.Store

variable {α κ : Type} [DecidableEq κ]

/-- The first elements of keys that are not taken yet, and all others. -/
def selectFirst (key : α → κ) : List α → List κ → List α × List α
  | [], _ => ([], [])
  | a :: rest, taken =>
      if key a ∈ taken then
        ((selectFirst key rest taken).1, a :: (selectFirst key rest taken).2)
      else
        (a :: (selectFirst key rest (key a :: taken)).1, (selectFirst key rest (key a :: taken)).2)

variable {key : α → κ}

theorem selectFirst_perm : ∀ (l : List α) (taken : List κ),
    ((selectFirst key l taken).1 ++ (selectFirst key l taken).2).Perm l
  | [], _ => .nil
  | a :: rest, taken => by
      rw [selectFirst]
      split
      · exact List.perm_middle.trans ((selectFirst_perm rest taken).cons a)
      · exact (selectFirst_perm rest (key a :: taken)).cons a

/-- Both parts have the order of the list. -/
theorem selectFirst_sublist : ∀ (l : List α) (taken : List κ),
    (selectFirst key l taken).1.Sublist l ∧ (selectFirst key l taken).2.Sublist l
  | [], _ => ⟨.slnil, .slnil⟩
  | a :: rest, taken => by
      rw [selectFirst]
      split
      · obtain ⟨hfirst, hothers⟩ := selectFirst_sublist rest taken
        exact ⟨hfirst.cons a, hothers.cons_cons a⟩
      · obtain ⟨hfirst, hothers⟩ := selectFirst_sublist rest (key a :: taken)
        exact ⟨hfirst.cons_cons a, hothers.cons a⟩

theorem selectFirst_keys : ∀ (l : List α) (taken : List κ),
    ((selectFirst key l taken).1.map key).Nodup ∧
      ∀ a ∈ (selectFirst key l taken).1, key a ∉ taken
  | [], _ => ⟨.nil, fun _ h => absurd h List.not_mem_nil⟩
  | a :: rest, taken => by
      rw [selectFirst]
      split
      · exact selectFirst_keys rest taken
      · rename_i hfree
        obtain ⟨hnodup, htaken⟩ := selectFirst_keys rest (key a :: taken)
        refine ⟨List.nodup_cons.mpr ⟨fun hmem => ?_, hnodup⟩, fun b hb => ?_⟩
        · obtain ⟨b, hb, hkey⟩ := List.mem_map.mp hmem
          exact htaken b hb (hkey ▸ List.mem_cons_self)
        · obtain rfl | hb := List.mem_cons.mp hb
          · exact hfree
          · exact fun hmem => htaken b hb (List.mem_cons_of_mem _ hmem)

/-- An element that is set aside comes behind a selected one with its key. -/
theorem selectFirst_before {R : α → α → Prop} : ∀ {l : List α} {taken : List κ}, l.Pairwise R →
    ∀ b ∈ (selectFirst key l taken).2,
      key b ∈ taken ∨ ∃ a ∈ (selectFirst key l taken).1, key a = key b ∧ R a b
  | [], _, _, _, hb => absurd hb List.not_mem_nil
  | a :: rest, taken, hpairwise, b, hb => by
      obtain ⟨hfirst, hrest⟩ := List.pairwise_cons.mp hpairwise
      rw [selectFirst] at hb ⊢
      split at hb
      · rename_i htaken
        rw [if_pos htaken]
        obtain rfl | hb := List.mem_cons.mp hb
        · exact .inl htaken
        · exact selectFirst_before hrest b hb
      · rename_i hfree
        rw [if_neg hfree]
        obtain hmem | ⟨c, hc, hkey, hR⟩ := selectFirst_before hrest b hb
        · obtain heq | hmem := List.mem_cons.mp hmem
          · have hbrest := (selectFirst_sublist rest (key a :: taken)).2.subset hb
            exact .inr ⟨a, List.mem_cons_self, heq.symm, hfirst b hbrest⟩
          · exact .inl hmem
        · exact .inr ⟨c, List.mem_cons_of_mem _ hc, hkey, hR⟩

/-- Selecting among what a function makes of the elements. -/
theorem selectFirst_map {β : Type} (f : β → α) : ∀ (l : List β) (taken : List κ),
    selectFirst key (l.map f) taken =
      ((selectFirst (key ∘ f) l taken).1.map f, (selectFirst (key ∘ f) l taken).2.map f)
  | [], _ => rfl
  | b :: rest, taken => by
      rw [List.map_cons, selectFirst, selectFirst, selectFirst_map f rest, selectFirst_map f rest]
      dsimp only [Function.comp_apply]
      split <;> rfl

end Benchhand.Store
