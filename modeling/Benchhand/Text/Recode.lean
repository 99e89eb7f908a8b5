/-
Benchhand.Text.Recode — splices of a text that is written in a code.

A code writes a list of symbols as a list of elements. A splice of the symbols
has its place among the elements (`SelfSync.splice`), and replacing spans and
encoding can change places (`encode_spliced`). A splice that replaces the only
code of some symbols by another code comes from a splice of the symbols
(`replaces_iff`), so that it can be carried over into another code.
-/
import Benchhand.Text.SelfSync
import Benchhand.Text.Splice

namespace Benchhand.Text.SelfSync

variable {α β : Type} (S : SelfSync α β) (xs : List α)

/-! ## Places -/

/-- Where the code of a symbol begins. -/
def offset (k : Nat) : Nat := (S.encode (xs.take k)).length

/-- The splice of the elements that a splice of the symbols is. -/
def splice (s : Splice α) : Splice β := ⟨S.offset xs s.start, S.offset xs s.stop, S.encode s.text⟩

theorem encode_take_drop (k : Nat) :
    S.encode xs = S.encode (xs.take k) ++ S.encode (xs.drop k) := by
  rw [← encode_append, List.take_append_drop]

theorem take_encode (k : Nat) : (S.encode xs).take (S.offset xs k) = S.encode (xs.take k) := by
  rw [S.encode_take_drop xs k, offset, List.take_left]

theorem drop_encode (k : Nat) : (S.encode xs).drop (S.offset xs k) = S.encode (xs.drop k) := by
  rw [S.encode_take_drop xs k, offset, List.drop_left]

@[simp] theorem offset_zero : S.offset xs 0 = 0 := rfl

/-- The symbols between two places. -/
theorem offset_add (i k : Nat) :
    S.offset xs (i + k) = S.offset xs i + (S.encode ((xs.drop i).take k)).length := by
  rw [offset, List.take_add, encode_append, List.length_append]
  rfl

theorem offset_mono {i j : Nat} (h : i ≤ j) : S.offset xs i ≤ S.offset xs j := by
  obtain ⟨k, rfl⟩ := Nat.exists_eq_add_of_le h
  rw [offset_add]
  exact Nat.le_add_right _ _

theorem offset_lt {i j : Nat} (h : i < j) (hi : i < xs.length) : S.offset xs i < S.offset xs j := by
  obtain ⟨k, rfl⟩ := Nat.exists_eq_add_of_lt h
  have hne : (xs.drop i).take (k + 1) ≠ [] := by
    simp only [ne_eq, List.take_eq_nil_iff, List.drop_eq_nil_iff]
    omega
  have hpos := List.length_pos_iff.mpr (mt (S.encode_eq_nil_iff _).mp hne)
  rw [Nat.add_assoc, offset_add]
  omega

theorem le_of_offset_le {i j : Nat} (hj : j < xs.length) (h : S.offset xs i ≤ S.offset xs j) :
    i ≤ j := by
  by_contra hlt
  exact absurd (S.offset_lt xs (Nat.lt_of_not_le hlt) hj) (Nat.not_lt.mpr h)

theorem offset_length : S.offset xs xs.length = (S.encode xs).length := by
  rw [offset, List.take_length]

/-! ## Replacing and encoding -/

/-- Encoding what a cursor makes of the symbols, or having it go through the
elements. -/
theorem encode_spliceFrom : ∀ (splices : List (Splice α)) (cursor : Nat),
    S.encode (spliceFrom xs cursor splices) =
      spliceFrom (S.encode xs) (S.offset xs cursor) (splices.map (S.splice xs))
  | [], cursor => (S.drop_encode xs cursor).symm
  | s :: rest, cursor => by
      have hpiece : ((S.encode xs).take (S.offset xs s.start)).drop (S.offset xs cursor) =
          S.encode ((xs.take s.start).drop cursor) := by
        rw [take_encode]
        obtain hlt | hle := Nat.lt_or_ge s.start cursor
        · rw [List.drop_eq_nil_of_le (S.offset_mono xs (Nat.le_of_lt hlt)),
            List.drop_eq_nil_of_le (by rw [List.length_take]; omega), encode_nil]
        · have hcursor : S.offset xs cursor = S.offset (xs.take s.start) cursor := by
            rw [offset, offset, List.take_take, Nat.min_eq_left hle]
          rw [hcursor, drop_encode]
      rw [List.map_cons, spliceFrom, spliceFrom, encode_append, encode_append,
        encode_spliceFrom rest s.stop, splice, hpiece]

theorem inOrder_splice {splices : List (Splice α)} (h : InOrder splices) :
    InOrder (splices.map (S.splice xs)) := by
  rw [InOrder, List.pairwise_map]
  exact h.imp fun hst => S.offset_mono xs hst

theorem apart_splice {s t : Splice α} (h : s.Apart t) : (S.splice xs s).Apart (S.splice xs t) :=
  h.imp (S.offset_mono xs) (S.offset_mono xs)

/-- Spans that lie apart in the code lie apart. -/
theorem apart_of_splice {s t : Splice α} (hs : s.Within xs.length) (ht : t.Within xs.length)
    (h : (S.splice xs s).Apart (S.splice xs t)) : s.Apart t :=
  h.imp (S.le_of_offset_le xs (Nat.lt_of_lt_of_le ht.1 ht.2))
    (S.le_of_offset_le xs (Nat.lt_of_lt_of_le hs.1 hs.2))

theorem within_splice {s : Splice α} (h : s.Within xs.length) :
    (S.splice xs s).Within (S.encode xs).length := by
  refine ⟨S.offset_lt xs h.1 (Nat.lt_of_lt_of_le h.1 h.2), ?_⟩
  rw [← offset_length]
  exact S.offset_mono xs h.2

theorem pairwise_apart_splice {splices : List (Splice α)}
    (hwithin : ∀ s ∈ splices, s.Within xs.length) :
    (splices.map (S.splice xs)).Pairwise Splice.Apart ↔ splices.Pairwise Splice.Apart := by
  rw [List.pairwise_map]
  exact List.Pairwise.iff_of_mem fun hs ht =>
    ⟨S.apart_of_splice xs (hwithin _ hs) (hwithin _ ht), S.apart_splice xs⟩

/-- Replacing all spans of the symbols at once, and those of the elements. -/
theorem encode_spliced {splices : List (Splice α)} (hapart : splices.Pairwise Splice.Apart)
    (hwithin : ∀ s ∈ splices, s.Within xs.length) :
    S.encode (spliced xs splices) = spliced (S.encode xs) (splices.map (S.splice xs)) := by
  obtain ⟨ordered, hperm, horder⟩ := exists_inOrder hapart fun s hs => (hwithin s hs).1
  have hordered : ∀ s ∈ ordered, s.Within xs.length := fun s hs => hwithin s (hperm.mem_iff.mp hs)
  have hcoded : ∀ s ∈ ordered.map (S.splice xs), s.Within (S.encode xs).length := by
    intro s hs
    obtain ⟨t, ht, rfl⟩ := List.mem_map.mp hs
    exact S.within_splice xs (hordered t ht)
  have hcodedApart := (S.inOrder_splice xs horder).apart
  calc S.encode (spliced xs splices)
      = S.encode (spliceFrom xs 0 ordered) := by
        rw [spliceFrom_eq horder hordered, spliced_perm hperm horder.apart]
    _ = spliced (S.encode xs) (ordered.map (S.splice xs)) := by
        rw [encode_spliceFrom, offset_zero, spliceFrom_eq (S.inOrder_splice xs horder) hcoded]
    _ = spliced (S.encode xs) (splices.map (S.splice xs)) := spliced_perm (hperm.map _) hcodedApart

/-! ## Splices of the elements -/

/-- The code of some symbols stands where the symbols do. -/
theorem prefix_drop_offset {ys : List α} {i : Nat} (h : ys <+: xs.drop i) :
    S.encode ys <+: (S.encode xs).drop (S.offset xs i) := by
  obtain ⟨rest, hrest⟩ := h
  rw [drop_encode, ← hrest, encode_append]
  exact List.prefix_append _ _

/-- It stands nowhere else. -/
theorem exists_offset {ys : List α} (hys : ys ≠ []) {k : Nat}
    (h : S.encode ys <+: (S.encode xs).drop k) :
    ∃ i, S.offset xs i = k ∧ ys <+: xs.drop i := by
  obtain ⟨rest, hrest⟩ := h
  have hsplit : S.encode xs = (S.encode xs).take k ++ (S.encode ys ++ rest) := by
    rw [hrest, List.take_append_drop]
  obtain ⟨before, after, rfl, hbefore, -⟩ := S.encode_occurrence hys hsplit
  have hle : k ≤ (S.encode (before ++ (ys ++ after))).length := by
    by_contra hlt
    have hnil : (S.encode (before ++ (ys ++ after))).drop k = [] :=
      List.drop_eq_nil_of_le (by omega)
    rw [hnil, List.append_eq_nil_iff, encode_eq_nil_iff] at hrest
    exact hys hrest.1
  refine ⟨before.length, ?_, by rw [List.drop_left]; exact List.prefix_append _ _⟩
  rw [offset, List.take_left, ← hbefore, List.length_take]
  omega

theorem lt_length_of_prefix_drop {ys : List α} (hys : ys ≠ []) {i : Nat} (h : ys <+: xs.drop i) :
    i < xs.length := by
  have hle := h.length_le
  have hpos := List.length_pos_iff.mpr hys
  rw [List.length_drop] at hle
  omega

theorem offset_injective {ys : List α} (hys : ys ≠ []) {i j : Nat} (hi : ys <+: xs.drop i)
    (hj : ys <+: xs.drop j) (h : S.offset xs i = S.offset xs j) : i = j :=
  Nat.le_antisymm
    (S.le_of_offset_le xs (lt_length_of_prefix_drop xs hys hj) (Nat.le_of_eq h))
    (S.le_of_offset_le xs (lt_length_of_prefix_drop xs hys hi) (Nat.le_of_eq h.symm))

/-- A splice that replaces the only code of some symbols is the splice that
replaces the symbols. -/
theorem replaces_iff {ys zs : List α} (hys : ys ≠ []) {s : Splice β} :
    s.Replaces (S.encode xs) (S.encode ys) (S.encode zs) ↔
      ∃ t : Splice α, t.Replaces xs ys zs ∧ S.splice xs t = s := by
  constructor
  · rintro ⟨honly, hstop, htext⟩
    obtain ⟨i, hi, hys'⟩ := S.exists_offset xs hys ((honly s.start).mpr rfl)
    refine ⟨⟨i, i + ys.length, zs⟩, ⟨fun j => ⟨fun hj => ?_, ?_⟩, rfl, rfl⟩, ?_⟩
    · have hstart := (honly _).mp (S.prefix_drop_offset xs hj)
      exact S.offset_injective xs hys hj hys' (hstart.trans hi.symm)
    · rintro rfl
      exact hys'
    · obtain ⟨start, stop, text⟩ := s
      dsimp only at hstop htext hi
      rw [splice, offset_add, hi, ← List.prefix_iff_eq_take.mp hys', hstop, htext]
  · rintro ⟨t, ⟨honly, hstop, htext⟩, rfl⟩
    have hstands := (honly t.start).mpr rfl
    refine ⟨fun k => ⟨fun hk => ?_, ?_⟩, ?_, by rw [splice, htext]⟩
    · obtain ⟨i, rfl, hi⟩ := S.exists_offset xs hys hk
      rw [(honly i).mp hi]
      rfl
    · rintro rfl
      exact S.prefix_drop_offset xs hstands
    · dsimp only [splice]
      rw [hstop, offset_add, ← List.prefix_iff_eq_take.mp hstands]

/-- The same for a list of replacements. -/
theorem forall₂_replaces_iff {ι : Type} {old new : ι → List α} : ∀ {edits : List ι}
    {splices : List (Splice β)}, (∀ edit ∈ edits, old edit ≠ []) →
    (List.Forall₂
        (fun edit s => s.Replaces (S.encode xs) (S.encode (old edit)) (S.encode (new edit)))
        edits splices ↔
      ∃ ts : List (Splice α),
        List.Forall₂ (fun edit t => t.Replaces xs (old edit) (new edit)) edits ts ∧
          ts.map (S.splice xs) = splices)
  | [], splices, _ => by
      rw [List.forall₂_nil_left_iff]
      constructor
      · rintro rfl
        exact ⟨[], .nil, rfl⟩
      · rintro ⟨ts, hts, rfl⟩
        rw [List.forall₂_nil_left_iff.mp hts, List.map_nil]
  | edit :: edits, splices, hold => by
      obtain ⟨hedit, hedits⟩ := List.forall_mem_cons.mp hold
      rw [List.forall₂_cons_left_iff]
      constructor
      · rintro ⟨s, rest, hs, hrest, rfl⟩
        obtain ⟨t, ht, rfl⟩ := (S.replaces_iff xs hedit).mp hs
        obtain ⟨ts, hts, rfl⟩ := (forall₂_replaces_iff hedits).mp hrest
        exact ⟨t :: ts, .cons ht hts, rfl⟩
      · rintro ⟨ts, hts, rfl⟩
        obtain ⟨t, rest, ht, hrest, rfl⟩ := List.forall₂_cons_left_iff.mp hts
        exact ⟨_, _, (S.replaces_iff xs hedit).mpr ⟨t, ht, rfl⟩,
          (forall₂_replaces_iff hedits).mpr ⟨rest, hrest, rfl⟩, rfl⟩

end Benchhand.Text.SelfSync
