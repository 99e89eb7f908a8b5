/-
Benchhand.Instructions.CodePointTheorems — the order of names and sources.

Both packages compare strings by their code points. The iterator of strings
decodes ill-formed strings injectively, so the comparison is a strict total
order on all of them, and on well-formed strings it is the order of their bytes
in UTF-8 (`compareCodePoints_order`).
-/
import Benchhand.Filesystem.ListTheorems
import Benchhand.Instructions.Call
import Benchhand.Text.Order

namespace Benchhand.Instructions

open Text

/-- What a comparison function of a strict total order on strings does. -/
structure StringOrder (compare : JsString → JsString → Int) : Prop where
  eq_zero : ∀ a b, compare a b = 0 ↔ a = b
  antisymm : ∀ a b, (compare a b).sign = -(compare b a).sign
  trans : ∀ a b c, ∀ sign : Int, (compare a b).sign = sign → (compare b c).sign = sign →
    (compare a c).sign = sign
  bytes : ∀ a b, WellFormed a → WellFormed b →
    (compare a b).sign = compareBytes (encodeUtf8 a) (encodeUtf8 b)

/-! ## The sign of a comparison -/

theorem sign_of_lt {a b : JsString} (h : codePoints a < codePoints b) :
    (Filesystem.compareCodePoints a b).sign = -1 :=
  Int.sign_eq_neg_one_of_neg ((Filesystem.compareCodePoints_neg_iff a b).mpr h)

theorem sign_of_gt {a b : JsString} (h : codePoints b < codePoints a) :
    (Filesystem.compareCodePoints a b).sign = 1 :=
  Int.sign_eq_one_of_pos ((Filesystem.compareCodePoints_pos_iff a b).mpr h)

theorem sign_self (a : JsString) : (Filesystem.compareCodePoints a a).sign = 0 := by
  rw [(Filesystem.compareCodePoints_eq_zero_iff a a).mpr rfl, Int.sign_zero]

/-- The sign is that of any strict order for which strings compare alike. -/
theorem sign_cases (a b : JsString) :
    codePoints a < codePoints b ∧ (Filesystem.compareCodePoints a b).sign = -1 ∨
      a = b ∧ (Filesystem.compareCodePoints a b).sign = 0 ∨
      codePoints b < codePoints a ∧ (Filesystem.compareCodePoints a b).sign = 1 := by
  rcases lt_trichotomy (codePoints a) (codePoints b) with hlt | heq | hgt
  · exact .inl ⟨hlt, sign_of_lt hlt⟩
  · obtain rfl := Filesystem.codePoints_injective heq
    exact .inr (.inl ⟨rfl, sign_self a⟩)
  · exact .inr (.inr ⟨hgt, sign_of_gt hgt⟩)

theorem sign_antisymm (a b : JsString) :
    (Filesystem.compareCodePoints a b).sign = -(Filesystem.compareCodePoints b a).sign := by
  obtain ⟨hlt, hsign⟩ | ⟨rfl, hsign⟩ | ⟨hgt, hsign⟩ := sign_cases a b
  · rw [hsign, sign_of_gt hlt]
  · rw [hsign, neg_zero]
  · rw [hsign, sign_of_lt hgt, neg_neg]

theorem sign_trans (a b c : JsString) (sign : Int)
    (hab : (Filesystem.compareCodePoints a b).sign = sign)
    (hbc : (Filesystem.compareCodePoints b c).sign = sign) :
    (Filesystem.compareCodePoints a c).sign = sign := by
  subst hab
  obtain ⟨hlt, hsign⟩ | ⟨rfl, -⟩ | ⟨hgt, hsign⟩ := sign_cases a b
  · obtain ⟨hlt', -⟩ | ⟨rfl, -⟩ | ⟨-, hsign'⟩ := sign_cases b c
    · rw [hsign, sign_of_lt (hlt.trans hlt')]
    · rfl
    · rw [hsign, hsign'] at hbc
      cases hbc
  · exact hbc
  · obtain ⟨-, hsign'⟩ | ⟨rfl, -⟩ | ⟨hgt', -⟩ := sign_cases b c
    · rw [hsign, hsign'] at hbc
      cases hbc
    · rfl
    · rw [hsign, sign_of_gt (hgt'.trans hgt)]

theorem sign_bytes {a b : JsString} (ha : WellFormed a) (hb : WellFormed b) :
    (Filesystem.compareCodePoints a b).sign = compareBytes (encodeUtf8 a) (encodeUtf8 b) := by
  obtain ⟨hlt, hsign⟩ | ⟨rfl, hsign⟩ | ⟨hgt, hsign⟩ := sign_cases a b
  · rw [hsign, compareBytes_of_lt (encodeUtf8_lt ha hb hlt)]
  · rw [hsign, compareBytes_self]
  · rw [hsign, compareBytes_of_gt (encodeUtf8_lt hb ha hgt)]

/-- Both copies of `compareCodePoints` order all strings, and well-formed ones as
their encodings. -/
theorem compareCodePoints_order :
    StringOrder Filesystem.compareCodePoints ∧ StringOrder compareCodePoints := by
  have h : StringOrder Filesystem.compareCodePoints := {
    eq_zero := fun a b => (Filesystem.compareCodePoints_eq_zero_iff a b).trans
      Filesystem.codePoints_injective.eq_iff
    antisymm := sign_antisymm
    trans := sign_trans
    bytes := fun _ _ ha hb => sign_bytes ha hb }
  exact ⟨h, h⟩

/-- Astral characters sort behind U+E000, unlike their units. -/
example : compareCodePoints [0xE000] [0xD800, 0xDC00] < 0 := by decide

end Benchhand.Instructions
