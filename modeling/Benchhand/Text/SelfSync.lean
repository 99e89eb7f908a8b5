/-
Benchhand.Text.SelfSync — codes whose codewords can be found again inside a
stream of codewords.

A `SelfSync` code writes every symbol as one LEAD element followed by
elements that are not leads, and no codeword is a proper prefix of another.
Both transformation formats a JavaScript runtime moves text through are of
this kind: in UTF-16 every unit but a low surrogate is a lead, in UTF-8 every
byte but a continuation byte is.

The two results a client needs are `encode_prefix` (a stream that starts with
the code of `ys` is the code of a list that starts with `ys`) and
`encode_occurrence` (the code of a nonempty list occurs inside the code of
another list only where the list itself occurs). The second is what lets a
search over code units be read as a search over symbols, and a search over
bytes as a search over the same symbols.
-/
import Mathlib.Data.List.Basic

namespace Benchhand.Text

/-- A self-synchronising prefix code over the symbols `α`. -/
structure SelfSync (α β : Type) where
  /-- The codeword of a symbol. -/
  word : α → List β
  /-- The elements that can start a codeword. -/
  lead : β → Prop
  word_shape : ∀ a, ∃ b bs, word a = b :: bs ∧ lead b ∧ ∀ c ∈ bs, ¬ lead c
  prefix_free : ∀ a b, word a <+: word b → a = b

namespace SelfSync

variable {α β : Type} (S : SelfSync α β)

/-- The code of a list of symbols. -/
def encode (xs : List α) : List β := xs.flatMap S.word

@[simp] theorem encode_nil : S.encode [] = [] := rfl

@[simp] theorem encode_cons (x : α) (xs : List α) :
    S.encode (x :: xs) = S.word x ++ S.encode xs := rfl

@[simp] theorem encode_append (xs ys : List α) :
    S.encode (xs ++ ys) = S.encode xs ++ S.encode ys := by
  simp [encode]

theorem word_ne_nil (a : α) : S.word a ≠ [] := by
  obtain ⟨b, bs, h, -, -⟩ := S.word_shape a
  simp [h]

/-- Only the empty list has an empty code. -/
theorem encode_eq_nil_iff (xs : List α) : S.encode xs = [] ↔ xs = [] := by
  cases xs with
  | nil => simp
  | cons x xs => simp [S.word_ne_nil x]

/-- A nonempty code starts with a lead. -/
theorem encode_head_lead {xs : List α} {b : β} {bs : List β}
    (h : S.encode xs = b :: bs) : S.lead b := by
  cases xs with
  | nil => simp at h
  | cons x xs =>
    obtain ⟨c, cs, hw, hc, -⟩ := S.word_shape x
    rw [encode_cons, hw, List.cons_append, List.cons.injEq] at h
    exact h.1 ▸ hc

/-- A lead inside a code stands at a codeword boundary. -/
theorem encode_split_lead (b : β) (hb : S.lead b) :
    ∀ (xs : List α) (u v : List β), S.encode xs = u ++ b :: v →
      ∃ x₁ x₂, xs = x₁ ++ x₂ ∧ u = S.encode x₁ ∧ b :: v = S.encode x₂
  | [], u, v, h => by simp at h
  | x :: xs, [], v, h => ⟨[], x :: xs, rfl, rfl, h.symm⟩
  | x :: xs, l :: u, v, h => by
      obtain ⟨c, cs, hw, -, hcs⟩ := S.word_shape x
      rw [encode_cons, hw, List.cons_append, List.cons_append, List.cons.injEq] at h
      obtain ⟨rfl, h⟩ := h
      -- the lead cannot fall among the continuation elements of `x`
      obtain ⟨u', rfl, hu'⟩ | ⟨w', hw', hv'⟩ := List.append_eq_append_iff.mp h
      · obtain ⟨x₁, x₂, rfl, hx₁, hx₂⟩ := encode_split_lead b hb xs u' v hu'
        refine ⟨x :: x₁, x₂, rfl, ?_, hx₂⟩
        rw [encode_cons, hw, hx₁, List.cons_append]
      · cases w' with
        | nil =>
          have hu : u = cs := by simpa using hw'.symm
          subst hu
          exact ⟨[x], xs, rfl, by simp [hw], by simpa using hv'⟩
        | cons d w' =>
          rw [List.cons_append, List.cons.injEq] at hv'
          exact absurd hb (hv'.1 ▸ hcs d (by simp [hw']))

/-- A code is cut into two codes before a lead and at the end. -/
theorem encode_split {xs : List α} {u v : List β} (h : S.encode xs = u ++ v)
    (hv : ∀ b ∈ v.head?, S.lead b) :
    ∃ x₁ x₂, xs = x₁ ++ x₂ ∧ u = S.encode x₁ ∧ v = S.encode x₂ := by
  cases v with
  | nil => exact ⟨xs, [], by simp, by simpa using h.symm, rfl⟩
  | cons b v => exact S.encode_split_lead b (hv b rfl) xs u v h

/-- A stream that starts with the code of `ys` is the code of a list that
starts with `ys`. -/
theorem encode_prefix : ∀ (ys xs : List α) (w : List β),
    S.encode xs = S.encode ys ++ w → ∃ x₂, xs = ys ++ x₂ ∧ w = S.encode x₂
  | [], xs, w, h => ⟨xs, rfl, by simpa using h.symm⟩
  | y :: ys, [], w, h => by
      simp [S.word_ne_nil y] at h
  | y :: ys, x :: xs, w, h => by
      rw [encode_cons, encode_cons, List.append_assoc] at h
      have hxy : x = y := by
        obtain ⟨t, ht, -⟩ | ⟨t, ht, -⟩ := List.append_eq_append_iff.mp h
        · exact S.prefix_free x y ⟨t, ht.symm⟩
        · exact (S.prefix_free y x ⟨t, ht.symm⟩).symm
      subst hxy
      obtain ⟨x₂, rfl, hw⟩ := encode_prefix ys xs w (List.append_cancel_left h)
      exact ⟨x₂, rfl, hw⟩

/-- The code of a nonempty list occurs in the code of another list only where
the list itself occurs. -/
theorem encode_occurrence {xs ys : List α} {u w : List β} (hys : ys ≠ [])
    (h : S.encode xs = u ++ (S.encode ys ++ w)) :
    ∃ x₁ x₂, xs = x₁ ++ (ys ++ x₂) ∧ u = S.encode x₁ ∧ w = S.encode x₂ := by
  cases hy : S.encode ys with
  | nil => exact absurd ((S.encode_eq_nil_iff ys).mp hy) hys
  | cons b bs =>
    rw [hy, List.cons_append] at h
    obtain ⟨x₁, x', rfl, hu, hx'⟩ :=
      S.encode_split_lead b (S.encode_head_lead hy) xs u (bs ++ w) h
    have hx'' : S.encode x' = S.encode ys ++ w := by rw [← hx', hy, List.cons_append]
    obtain ⟨x₂, rfl, hw⟩ := S.encode_prefix ys x' w hx''
    exact ⟨x₁, x₂, rfl, hu, hw⟩

end SelfSync

end Benchhand.Text
