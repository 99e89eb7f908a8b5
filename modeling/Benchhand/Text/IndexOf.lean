/-
Benchhand.Text.IndexOf — searching a string in a string.

`indexOf` is `s.indexOf(needle, from)` with a needle that is not empty. The
loops of the package look on from behind an occurrence, by its start or by its
end (`occurrencesFrom`); they find something when it is there
(`occurrencesFrom_ne_nil_iff`), every occurrence when they look on from the
next unit (`mem_occurrencesFrom_one`), and line by line they find what has no
line feed in it (`exists_line_iff`).
-/
import Benchhand.Text.Unicode

namespace Benchhand.Text

/-- The first place from `i` on, `s` being what is left from there. -/
def indexFrom (needle : JsString) : Nat → JsString → Option Nat
  | i, [] => if needle = [] then some i else none
  | i, u :: rest => if needle.isPrefixOf (u :: rest) then some i else indexFrom needle (i + 1) rest

/-- `s.indexOf(needle, from)`; none for -1. -/
def indexOf (s needle : JsString) (start : Nat) : Option Nat :=
  indexFrom needle start (s.drop start)

/-- The places a loop finds that goes on `advance` units behind each; every
round moves on, so `s.length + 1` rounds are enough. -/
def occurrencesFrom (s needle : JsString) (advance : Nat) : Nat → Nat → List Nat
  | 0, _ => []
  | fuel + 1, start =>
      match indexOf s needle start with
      | none => []
      | some found => found :: occurrencesFrom s needle advance fuel (found + advance)

/-! ## What is found -/

theorem indexFrom_eq_some {needle : JsString} : ∀ {s : JsString} {i found : Nat},
    indexFrom needle i s = some found → ∃ k, found = i + k ∧ needle <+: s.drop k
  | [], i, found, h => by
      rw [indexFrom] at h
      split at h
      · rename_i hnil
        exact ⟨0, (Option.some.inj h).symm, by simp [hnil]⟩
      · cases h
  | u :: rest, i, found, h => by
      rw [indexFrom] at h
      split at h
      · rename_i hprefix
        exact ⟨0, (Option.some.inj h).symm, List.isPrefixOf_iff_prefix.mp hprefix⟩
      · obtain ⟨k, rfl, hk⟩ := indexFrom_eq_some h
        exact ⟨k + 1, by omega, hk⟩

theorem indexFrom_eq_none {needle : JsString} : ∀ {s : JsString} {i : Nat},
    indexFrom needle i s = none → ¬ needle <:+: s
  | [], i, h => by
      rw [indexFrom] at h
      split at h
      · cases h
      · rename_i hne
        exact fun hinfix => hne (List.infix_nil.mp hinfix)
  | u :: rest, i, h => by
      rw [indexFrom] at h
      split at h
      · cases h
      · rename_i hprefix
        rw [List.infix_cons_iff]
        rintro (hhere | hlater)
        · exact hprefix (List.isPrefixOf_iff_prefix.mpr hhere)
        · exact indexFrom_eq_none h hlater

/-- A loop from the start finds something exactly when it is there. -/
theorem occurrencesFrom_ne_nil_iff {s needle : JsString} {advance fuel : Nat} :
    occurrencesFrom s needle advance (fuel + 1) 0 ≠ [] ↔ needle <:+: s := by
  rw [occurrencesFrom, indexOf, List.drop_zero]
  cases hfound : indexFrom needle 0 s with
  | none => exact iff_of_false (not_not_intro rfl) (indexFrom_eq_none hfound)
  | some found =>
      obtain ⟨k, -, hk⟩ := indexFrom_eq_some hfound
      exact iff_of_true (List.cons_ne_nil _ _) (hk.isInfix.trans (List.drop_suffix k s).isInfix)

/-! ## Where it is found -/

/-- The needle stands at place `i`. -/
def OccursAt (s needle : JsString) (i : Nat) : Prop := needle <+: s.drop i

theorem OccursAt.stop_le {s needle : JsString} {i : Nat} (h : OccursAt s needle i)
    (hneedle : needle ≠ []) : i + needle.length ≤ s.length := by
  have hlength := h.length_le
  have hpos := List.length_pos_iff.mpr hneedle
  rw [List.length_drop] at hlength
  omega

theorem indexFrom_least {needle : JsString} : ∀ {s : JsString} {i k : Nat},
    indexFrom needle i s = some (i + k) → ∀ j < k, ¬ needle <+: s.drop j
  | [], i, k, h, j, hj => by
      rw [indexFrom] at h
      split at h
      · have hk : i = i + k := Option.some.inj h
        omega
      · cases h
  | u :: rest, i, k, h, j, hj => by
      rw [indexFrom] at h
      split at h
      · have hk : i = i + k := Option.some.inj h
        omega
      · rename_i hprefix
        cases j with
        | zero => exact fun hhere => hprefix (List.isPrefixOf_iff_prefix.mpr hhere)
        | succ j =>
            obtain ⟨k', hk', -⟩ := indexFrom_eq_some h
            obtain rfl : k = k' + 1 := by omega
            have hrest : indexFrom needle (i + 1) rest = some (i + 1 + k') := by
              rw [h, Nat.add_right_comm, Nat.add_assoc]
            exact indexFrom_least hrest j (by omega)

theorem indexFrom_add (needle : JsString) (k : Nat) : ∀ (s : JsString) (i : Nat),
    indexFrom needle (k + i) s = (indexFrom needle i s).map (k + ·)
  | [], i => by
      rw [indexFrom, indexFrom]
      split <;> rfl
  | u :: rest, i => by
      rw [indexFrom, indexFrom, Nat.add_assoc, indexFrom_add needle k rest]
      split <;> rfl

/-- The first occurrence from `start` on. -/
theorem indexOf_eq_some {s needle : JsString} {start found : Nat}
    (h : indexOf s needle start = some found) : start ≤ found ∧ OccursAt s needle found ∧
      ∀ i, start ≤ i → i < found → ¬ OccursAt s needle i := by
  obtain ⟨k, rfl, hk⟩ := indexFrom_eq_some h
  rw [List.drop_drop] at hk
  refine ⟨Nat.le_add_right _ _, hk, fun i hi hlt hoccurs => ?_⟩
  refine indexFrom_least h (i - start) (by omega) ?_
  rwa [List.drop_drop, Nat.add_sub_cancel' hi]

theorem indexOf_eq_none {s needle : JsString} {start : Nat} (h : indexOf s needle start = none)
    {i : Nat} (hi : start ≤ i) : ¬ OccursAt s needle i := by
  refine fun hoccurs => indexFrom_eq_none h (hoccurs.isInfix.trans ?_)
  rw [← Nat.add_sub_cancel' hi, ← List.drop_drop]
  exact (List.drop_suffix _ _).isInfix

section
variable {s needle : JsString} {advance : Nat}

/-- All that is found are occurrences. -/
theorem occursAt_of_mem : ∀ {fuel start i : Nat},
    i ∈ occurrencesFrom s needle advance fuel start → start ≤ i ∧ OccursAt s needle i
  | 0, _, _, h => absurd h List.not_mem_nil
  | fuel + 1, start, i, h => by
      rw [occurrencesFrom] at h
      split at h
      · exact absurd h List.not_mem_nil
      · rename_i found hfound
        obtain ⟨hstart, hoccurs, -⟩ := indexOf_eq_some hfound
        obtain rfl | hlater := List.mem_cons.mp h
        · exact ⟨hstart, hoccurs⟩
        · obtain ⟨hfrom, hi⟩ := occursAt_of_mem hlater
          exact ⟨by omega, hi⟩

/-- What is found lies at least `advance` apart. -/
theorem pairwise_occurrencesFrom : ∀ fuel start,
    (occurrencesFrom s needle advance fuel start).Pairwise fun i j => i + advance ≤ j
  | 0, _ => List.Pairwise.nil
  | fuel + 1, start => by
      rw [occurrencesFrom]
      split
      · exact List.Pairwise.nil
      · exact List.Pairwise.cons (fun j hj => (occursAt_of_mem hj).1)
          (pairwise_occurrencesFrom fuel _)

/-- Looking on from the next unit finds every occurrence. -/
theorem mem_occurrencesFrom_one (hneedle : needle ≠ []) : ∀ {fuel start i : Nat},
    s.length < start + fuel →
      (i ∈ occurrencesFrom s needle 1 fuel start ↔ start ≤ i ∧ OccursAt s needle i)
  | 0, start, i, hfuel => by
      refine iff_of_false List.not_mem_nil fun ⟨hi, hoccurs⟩ => ?_
      have hstop := hoccurs.stop_le hneedle
      omega
  | fuel + 1, start, i, hfuel => by
      refine ⟨occursAt_of_mem, fun ⟨hi, hoccurs⟩ => ?_⟩
      rw [occurrencesFrom]
      cases hfound : indexOf s needle start with
      | none => exact absurd hoccurs (indexOf_eq_none hfound hi)
      | some found =>
          obtain ⟨hstart, -, hleast⟩ := indexOf_eq_some hfound
          have hle : found ≤ i := Nat.le_of_not_lt fun hlt => hleast i hi hlt hoccurs
          obtain rfl | hlt := Nat.eq_or_lt_of_le hle
          · exact List.mem_cons_self
          · exact List.mem_cons_of_mem _
              ((mem_occurrencesFrom_one hneedle (by omega)).mpr ⟨hlt, hoccurs⟩)

end

/-! ## Lines -/

theorem splitOn_cons (separator u : UInt16) (s : JsString) :
    ∃ first others, s.splitOn separator = first :: others ∧
      (u :: s).splitOn separator =
        if u = separator then [] :: first :: others else (u :: first) :: others := by
  cases hsplit : s.splitOn separator with
  | nil => exact absurd hsplit (List.splitOn_ne_nil separator s)
  | cons first others =>
      refine ⟨first, others, rfl, ?_⟩
      rw [List.splitOn_cons_eq_if_modifyHead, hsplit]
      simp

theorem lines_infix {separator : UInt16} : ∀ {s first : JsString} {others : List JsString},
    s.splitOn separator = first :: others → first <+: s ∧ ∀ line ∈ others, line <:+: s
  | [], first, others, h => by
      rw [List.splitOn_nil] at h
      obtain ⟨rfl, rfl⟩ := List.cons.inj h
      exact ⟨List.prefix_rfl, fun line hline => absurd hline List.not_mem_nil⟩
  | u :: rest, first, others, h => by
      obtain ⟨first', others', hrest, hcons⟩ := splitOn_cons separator u rest
      obtain ⟨hfirst, hothers⟩ := lines_infix hrest
      rw [hcons] at h
      split at h
      · obtain ⟨rfl, rfl⟩ := List.cons.inj h
        refine ⟨List.nil_prefix, fun line hline => ?_⟩
        obtain rfl | hline := List.mem_cons.mp hline
        · exact List.infix_cons hfirst.isInfix
        · exact List.infix_cons (hothers line hline)
      · obtain ⟨rfl, rfl⟩ := List.cons.inj h
        exact ⟨List.cons_prefix_cons.mpr ⟨rfl, hfirst⟩,
          fun line hline => List.infix_cons (hothers line hline)⟩

/-- A unit of a text stands in one of its lines, unless it separates them. -/
theorem mem_splitOn {separator u : UInt16} (hu : u ≠ separator) : ∀ {s : JsString}, u ∈ s →
    ∃ line ∈ s.splitOn separator, u ∈ line
  | [], h => absurd h List.not_mem_nil
  | v :: rest, h => by
      obtain ⟨first, others, hrest, hcons⟩ := splitOn_cons separator v rest
      rw [hcons]
      obtain rfl | hmem := List.mem_cons.mp h
      · rw [if_neg hu]
        exact ⟨u :: first, List.mem_cons_self, List.mem_cons_self⟩
      · obtain ⟨line, hline, hmem⟩ := mem_splitOn hu hmem
        rw [hrest] at hline
        split
        · exact ⟨line, List.mem_cons_of_mem _ hline, hmem⟩
        · obtain rfl | hline := List.mem_cons.mp hline
          · exact ⟨v :: line, List.mem_cons_self, List.mem_cons_of_mem _ hmem⟩
          · exact ⟨line, List.mem_cons_of_mem _ hline, hmem⟩

theorem prefix_first {separator : UInt16} : ∀ {s needle first : JsString} {others : List JsString},
    separator ∉ needle → needle <+: s → s.splitOn separator = first :: others → needle <+: first
  | _, [], _, _, _, _, _ => List.nil_prefix
  | [], n :: needle, _, _, _, hneedle, _ => absurd (List.prefix_nil.mp hneedle) (List.cons_ne_nil _ _)
  | u :: rest, n :: needle, first, others, hnot, hneedle, h => by
      obtain ⟨rfl, htail⟩ := List.cons_prefix_cons.mp hneedle
      obtain ⟨hne, hnot⟩ := not_or.mp (mt List.mem_cons.mpr hnot)
      obtain ⟨first', others', hrest, hcons⟩ := splitOn_cons separator n rest
      rw [hcons, if_neg (Ne.symm hne)] at h
      obtain ⟨rfl, rfl⟩ := List.cons.inj h
      exact List.cons_prefix_cons.mpr ⟨rfl, prefix_first hnot htail hrest⟩

/-- What is found in a text and has no separator is found in one of its
lines. -/
theorem exists_line_iff {needle : JsString} {separator : UInt16} (hneedle : separator ∉ needle) :
    ∀ {s : JsString}, (∃ line ∈ s.splitOn separator, needle <:+: line) ↔ needle <:+: s := by
  intro s
  constructor
  · rintro ⟨line, hline, hinfix⟩
    cases hsplit : s.splitOn separator with
    | nil => exact absurd hsplit (List.splitOn_ne_nil separator s)
    | cons first others =>
        obtain ⟨hfirst, hothers⟩ := lines_infix hsplit
        rw [hsplit] at hline
        obtain rfl | hline := List.mem_cons.mp hline
        · exact hinfix.trans hfirst.isInfix
        · exact hinfix.trans (hothers line hline)
  · intro hinfix
    induction s with
    | nil => exact ⟨[], by simp, hinfix⟩
    | cons u rest ih =>
        obtain ⟨first, others, hrest, hcons⟩ := splitOn_cons separator u rest
        obtain hhere | hlater := List.infix_cons_iff.mp hinfix
        · cases hsplit : (u :: rest).splitOn separator with
          | nil => exact absurd hsplit (List.splitOn_ne_nil separator _)
          | cons line others =>
              exact ⟨line, List.mem_cons_self, (prefix_first hneedle hhere hsplit).isInfix⟩
        · obtain ⟨line, hline, hfound⟩ := ih hlater
          rw [hrest] at hline
          rw [hcons]
          split
          · exact ⟨line, List.mem_cons_of_mem [] hline, hfound⟩
          · obtain rfl | hline := List.mem_cons.mp hline
            · exact ⟨u :: line, List.mem_cons_self, List.infix_cons hfound⟩
            · exact ⟨line, List.mem_cons_of_mem _ hline, hfound⟩

end Benchhand.Text
