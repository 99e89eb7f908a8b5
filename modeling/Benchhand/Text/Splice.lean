/-
Benchhand.Text.Splice — replacing spans of a list.

`spliced` replaces all spans at once: it says for each place of the list what
stands there in the result, so the order of the splices does not matter as
long as no two spans overlap (`spliced_perm`). `spliceFrom` goes through the
splices with a cursor; when they are in order, it is the same
(`spliceFrom_eq`).
-/
import Mathlib.Algebra.BigOperators.Group.List.Basic
import Mathlib.Algebra.Ring.Int.Defs
import Mathlib.Data.List.Perm.Basic
import Mathlib.Data.List.Sort

namespace Benchhand.Text

/-- The span from `start` to `stop` gives way to a text. -/
structure Splice (α : Type) where
  start : Nat
  stop : Nat
  text : List α

variable {α : Type}

namespace Splice

/-- The span has the place. -/
def Covers (s : Splice α) (i : Nat) : Prop := s.start ≤ i ∧ i < s.stop

instance (s : Splice α) (i : Nat) : Decidable (s.Covers i) :=
  inferInstanceAs (Decidable (_ ∧ _))

/-- A span that is not empty, in a list of `length` places. -/
def Within (length : Nat) (s : Splice α) : Prop := s.start < s.stop ∧ s.stop ≤ length

/-- The splice puts `new` in the place of `old`, which stands nowhere else. -/
structure Replaces (source old new : List α) (s : Splice α) : Prop where
  only : ∀ i, old <+: source.drop i ↔ i = s.start
  stop : s.stop = s.start + old.length
  text : s.text = new

/-- One span ends before the other begins. -/
def Apart (s t : Splice α) : Prop := s.stop ≤ t.start ∨ t.stop ≤ s.start

theorem Apart.symm {s t : Splice α} (h : s.Apart t) : t.Apart s := Or.symm h

end Splice

theorem Splice.Replaces.within {source old new : List α} {s : Splice α}
    (h : s.Replaces source old new) (hold : old ≠ []) : s.Within source.length := by
  have hpos := List.length_pos_iff.mpr hold
  have hle := ((h.only s.start).mpr rfl).length_le
  rw [List.length_drop] at hle
  have hstop := h.stop
  exact ⟨by omega, by omega⟩

theorem Splice.Replaces.unique {source old new : List α} {s t : Splice α}
    (hs : s.Replaces source old new) (ht : t.Replaces source old new) : s = t := by
  have hstart : s.start = t.start := (ht.only _).mp ((hs.only _).mpr rfl)
  have hstop : s.stop = t.stop := by rw [hs.stop, ht.stop, hstart]
  have htext : s.text = t.text := hs.text.trans ht.text.symm
  cases s
  cases t
  simp_all only

/-! ## All spans at once -/

/-- What stands in the result for the element `a` at place `i`: the text of a
span that begins there, nothing inside a span, and `a` outside of all. -/
def splicedAt (splices : List (Splice α)) (i : Nat) (a : α) : List α :=
  match splices.find? fun s => s.Covers i with
  | some s => if i = s.start then s.text else []
  | none => [a]

/-- All spans are replaced. -/
def spliced (source : List α) (splices : List (Splice α)) : List α :=
  source.zipIdx.flatMap fun p => splicedAt splices p.2 p.1

/-- Spans that lie apart share no place. -/
theorem Splice.Apart.not_covers {s t : Splice α} (h : s.Apart t) {i : Nat} (hs : s.Covers i) :
    ¬ t.Covers i := by
  unfold Splice.Apart at h
  unfold Splice.Covers at hs ⊢
  omega

theorem find?_covers {splices : List (Splice α)} (hapart : splices.Pairwise Splice.Apart)
    {i : Nat} {s : Splice α} :
    splices.find? (fun s => s.Covers i) = some s ↔ s ∈ splices ∧ s.Covers i := by
  refine ⟨fun h => ⟨List.mem_of_find?_eq_some h, by simpa using List.find?_some h⟩, ?_⟩
  rintro ⟨hmem, hcovers⟩
  induction hapart with
  | nil => exact absurd hmem List.not_mem_nil
  | @cons t rest hfirst _ ih =>
      obtain rfl | hmem := List.mem_cons.mp hmem
      · exact List.find?_cons_of_pos (by simpa using hcovers)
      · have hnot := (hfirst s hmem).symm.not_covers hcovers
        rw [List.find?_cons_of_neg (by simpa using hnot)]
        exact ih hmem

/-- The order of the splices does not matter. -/
theorem spliced_perm {source : List α} {splices splices' : List (Splice α)}
    (hperm : splices.Perm splices') (hapart : splices.Pairwise Splice.Apart) :
    spliced source splices = spliced source splices' := by
  have hapart' := hapart.perm hperm fun h => h.symm
  have hfind : ∀ i, splices.find? (fun s => s.Covers i) = splices'.find? fun s => s.Covers i := by
    intro i
    refine Option.ext fun s => ?_
    rw [find?_covers hapart, find?_covers hapart', hperm.mem_iff]
  unfold spliced splicedAt
  simp only [hfind]

/-! ## With a cursor -/

/-- The pieces between the spans and the texts, from a cursor on. -/
def spliceFrom (source : List α) : Nat → List (Splice α) → List α
  | cursor, [] => source.drop cursor
  | cursor, s :: rest => (source.take s.start).drop cursor ++ s.text ++ spliceFrom source s.stop rest

/-- Each span ends before the next one begins. -/
def InOrder (splices : List (Splice α)) : Prop :=
  splices.Pairwise fun s t => s.stop ≤ t.start

theorem InOrder.apart {splices : List (Splice α)} (h : InOrder splices) :
    splices.Pairwise Splice.Apart := h.imp Or.inl

theorem isChain_iff_inOrder : ∀ {splices : List (Splice α)},
    (∀ s ∈ splices, s.start < s.stop) →
      (splices.IsChain (fun s t => s.stop ≤ t.start) ↔ InOrder splices)
  | [], _ => iff_of_true List.IsChain.nil List.Pairwise.nil
  | [s], _ => iff_of_true (List.IsChain.singleton s) (List.pairwise_singleton _ s)
  | s :: t :: rest, hne => by
      obtain ⟨-, hrest⟩ := List.forall_mem_cons.mp hne
      rw [List.isChain_cons_cons, isChain_iff_inOrder hrest]
      refine Iff.trans ?_ List.pairwise_cons.symm
      refine and_congr_left fun horder => ⟨fun hst u hu => ?_, fun h => h t List.mem_cons_self⟩
      obtain rfl | hu := List.mem_cons.mp hu
      · exact hst
      · have htu : t.stop ≤ u.start := (List.pairwise_cons.mp horder).1 u hu
        have ht : t.start < t.stop := hrest t List.mem_cons_self
        omega

/-- Spans that are ordered by their starts are in order when they lie apart. -/
theorem inOrder_iff_apart {splices : List (Splice α)} (hne : ∀ s ∈ splices, s.start < s.stop)
    (hstarts : splices.Pairwise fun s t => s.start ≤ t.start) :
    InOrder splices ↔ splices.Pairwise Splice.Apart := by
  refine ⟨InOrder.apart, fun hapart => ?_⟩
  refine (hapart.and hstarts).imp_of_mem fun {s t} _ ht ⟨hst, hstart⟩ => ?_
  have htne := hne t ht
  unfold Splice.Apart at hst
  omega

/-- Spans that lie apart can be put in order. -/
theorem exists_inOrder {splices : List (Splice α)} (hapart : splices.Pairwise Splice.Apart)
    (hne : ∀ s ∈ splices, s.start < s.stop) :
    ∃ ordered : List (Splice α), ordered.Perm splices ∧ InOrder ordered := by
  have htotal : Std.Total fun s t : Splice α => s.start ≤ t.start :=
    ⟨fun s t => Nat.le_total s.start t.start⟩
  have htrans : IsTrans (Splice α) fun s t => s.start ≤ t.start := ⟨fun _ _ _ => Nat.le_trans⟩
  have hperm := List.perm_insertionSort (fun s t : Splice α => s.start ≤ t.start) splices
  refine ⟨_, hperm, (inOrder_iff_apart ?_ (List.pairwise_insertionSort _ _)).mpr ?_⟩
  · exact fun s hs => hne s (hperm.mem_iff.mp hs)
  · exact hapart.perm hperm.symm fun h => h.symm

/-- No span reaches these elements. -/
theorem flatMap_splicedAt_free {splices : List (Splice α)} : ∀ {piece : List α} {i : Nat},
    (∀ s ∈ splices, ∀ j, i ≤ j → j < i + piece.length → ¬ s.Covers j) →
      ((piece.zipIdx i).flatMap fun p => splicedAt splices p.2 p.1) = piece
  | [], _, _ => rfl
  | a :: rest, i, h => by
      have hnone : splices.find? (fun s => s.Covers i) = none := by
        rw [List.find?_eq_none]
        intro s hs
        simpa using h s hs i (Nat.le_refl i) (by simp)
      have hrest : ∀ s ∈ splices, ∀ j, i + 1 ≤ j → j < i + 1 + rest.length → ¬ s.Covers j := by
        intro s hs j hij hj
        exact h s hs j (by omega) (by rw [List.length_cons]; omega)
      rw [List.zipIdx_cons, List.flatMap_cons, flatMap_splicedAt_free hrest]
      simp [splicedAt, hnone]

/-- Inside a span nothing stands. -/
theorem flatMap_splicedAt_inside {s : Splice α} {rest : List (Splice α)} : ∀ {piece : List α}
    {i : Nat}, s.start < i → i + piece.length ≤ s.stop →
      ((piece.zipIdx i).flatMap fun p => splicedAt (s :: rest) p.2 p.1) = []
  | [], _, _, _ => rfl
  | a :: piece, i, hi, hstop => by
      rw [List.length_cons] at hstop
      have hcovers : s.Covers i := ⟨by omega, by omega⟩
      have hhere : splicedAt (s :: rest) i a = [] := by
        rw [splicedAt, List.find?_cons_of_pos (by simpa using hcovers)]
        exact if_neg (by omega)
      rw [List.zipIdx_cons, List.flatMap_cons, hhere,
        flatMap_splicedAt_inside (by omega) (by omega), List.append_nil]

/-- The elements of a span give way to its text. -/
theorem flatMap_splicedAt_span {s : Splice α} {rest : List (Splice α)} {piece : List α}
    (hne : s.start < s.stop) (hlength : piece.length = s.stop - s.start) :
    ((piece.zipIdx s.start).flatMap fun p => splicedAt (s :: rest) p.2 p.1) = s.text := by
  cases piece with
  | nil =>
      rw [List.length_nil] at hlength
      omega
  | cons a piece =>
      rw [List.length_cons] at hlength
      have hcovers : s.Covers s.start := ⟨Nat.le_refl _, hne⟩
      have hhere : splicedAt (s :: rest) s.start a = s.text := by
        rw [splicedAt, List.find?_cons_of_pos (by simpa using hcovers)]
        exact if_pos rfl
      rw [List.zipIdx_cons, List.flatMap_cons, hhere,
        flatMap_splicedAt_inside (by omega) (by omega), List.append_nil]

/-- Behind a span it does not matter any more. -/
theorem flatMap_splicedAt_behind {s : Splice α} {rest : List (Splice α)} {piece : List α} {i : Nat}
    (hi : s.stop ≤ i) :
    ((piece.zipIdx i).flatMap fun p => splicedAt (s :: rest) p.2 p.1) =
      (piece.zipIdx i).flatMap fun p => splicedAt rest p.2 p.1 := by
  refine List.flatMap_congr fun (a, j) hmem => ?_
  have hj := (List.mem_zipIdx hmem).1
  have hnot : ¬ s.Covers j := fun h => by
    have hlt := h.2
    omega
  dsimp only
  unfold splicedAt
  rw [List.find?_cons_of_neg (by simpa using hnot)]

theorem spliceFrom_eq_flatMap {source : List α} : ∀ {splices : List (Splice α)} {cursor : Nat},
    InOrder splices → (∀ s ∈ splices, s.Within source.length ∧ cursor ≤ s.start) →
      spliceFrom source cursor splices =
        ((source.drop cursor).zipIdx cursor).flatMap fun p => splicedAt splices p.2 p.1
  | [], cursor, _, _ =>
      (flatMap_splicedAt_free fun s hs => absurd hs List.not_mem_nil).symm
  | s :: rest, cursor, horder, hwithin => by
      obtain ⟨hlater, hrest⟩ := List.pairwise_cons.mp horder
      obtain ⟨⟨hne, hstop⟩, hcursor⟩ := hwithin s List.mem_cons_self
      have hsplit : source.drop cursor = (source.take s.start).drop cursor ++
          ((source.take s.stop).drop s.start ++ source.drop s.stop) := by
        have h₁ : source.drop cursor = ((source.take s.start) ++ source.drop s.start).drop cursor := by
          rw [List.take_append_drop]
        have h₂ : source.drop s.start =
            (source.take s.stop).drop s.start ++ source.drop s.stop := by
          rw [← List.drop_append_of_le_length (by rw [List.length_take]; omega),
            List.take_append_drop]
        rw [h₁, List.drop_append_of_le_length (by rw [List.length_take]; omega), h₂]
      have hfirst : ((source.take s.start).drop cursor).length = s.start - cursor := by
        rw [List.length_drop, List.length_take]
        omega
      have hspan : ((source.take s.stop).drop s.start).length = s.stop - s.start := by
        rw [List.length_drop, List.length_take]
        omega
      have hfree : ∀ t ∈ s :: rest, ∀ j, cursor ≤ j →
          j < cursor + ((source.take s.start).drop cursor).length → ¬ t.Covers j := by
        intro t ht j _ hj hcovers
        rw [hfirst] at hj
        have hstart : s.start ≤ t.start := by
          obtain rfl | ht := List.mem_cons.mp ht
          · exact Nat.le_refl _
          · exact Nat.le_trans (Nat.le_of_lt hne) (hlater t ht)
        have hle := hcovers.1
        omega
      rw [spliceFrom, hsplit, List.zipIdx_append, List.flatMap_append,
        flatMap_splicedAt_free hfree, hfirst, Nat.add_sub_cancel' hcursor, List.zipIdx_append,
        List.flatMap_append, flatMap_splicedAt_span hne hspan, hspan,
        Nat.add_sub_cancel' (Nat.le_of_lt hne), flatMap_splicedAt_behind (Nat.le_refl _),
        spliceFrom_eq_flatMap hrest fun t ht =>
          ⟨(hwithin t (List.mem_cons_of_mem s ht)).1, hlater t ht⟩, List.append_assoc]

/-- Going through splices that are in order replaces all spans at once. -/
theorem spliceFrom_eq {source : List α} {splices : List (Splice α)} (horder : InOrder splices)
    (hwithin : ∀ s ∈ splices, s.Within source.length) :
    spliceFrom source 0 splices = spliced source splices :=
  spliceFrom_eq_flatMap horder fun s hs => ⟨hwithin s hs, Nat.zero_le _⟩

/-- The length of the result. -/
theorem length_spliceFrom {source : List α} : ∀ {splices : List (Splice α)} {cursor : Nat},
    InOrder splices → (∀ s ∈ splices, s.Within source.length ∧ cursor ≤ s.start) →
      cursor ≤ source.length →
      ((spliceFrom source cursor splices).length : Int) = source.length - cursor +
        (splices.map fun s => (s.text.length : Int) - (s.stop - s.start)).sum
  | [], cursor, _, _, hcursor => by
      rw [spliceFrom, List.length_drop, List.map_nil, List.sum_nil]
      omega
  | s :: rest, cursor, horder, hwithin, hcursor => by
      obtain ⟨hlater, hrest⟩ := List.pairwise_cons.mp horder
      obtain ⟨⟨hne, hstop⟩, hstart⟩ := hwithin s List.mem_cons_self
      have ih := length_spliceFrom hrest
        (fun t ht => ⟨(hwithin t (List.mem_cons_of_mem s ht)).1, hlater t ht⟩) hstop
      rw [spliceFrom, List.length_append, List.length_append, List.length_drop, List.length_take,
        List.map_cons, List.sum_cons]
      omega

end Benchhand.Text
