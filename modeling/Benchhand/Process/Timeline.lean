/-
Benchhand.Process.Timeline — what has been at each moment, and versions that
are known by a stamp.

A `Timeline` has a state for each moment up to now. Places have versions, and
a change of a place gives it a version with a stamp that it never had before
(`Fresh`). A timeline that has only been changed in this way is `Marked`: a
place that has one stamp at two moments has had one version from the first to
the second. So whoever sees the stamp twice knows what was there in between.
-/
import Benchhand.Process.Runs

namespace Benchhand.Process

/-! ## Timelines -/

/-- The states of the past, in order, and the state of now. -/
structure Timeline (M : Type) where
  past : List M
  now : M

namespace Timeline

variable {M : Type}

/-- The number of the present moment. -/
def present (t : Timeline M) : Nat := t.past.length

/-- The state at a moment. -/
def at? (t : Timeline M) (n : Nat) : Option M := (t.past ++ [t.now])[n]?

def next (t : Timeline M) (m : M) : Timeline M := ⟨t.past ++ [t.now], m⟩

/-- One state after the other. -/
def advance (t : Timeline M) (ms : List M) : Timeline M := runFrom next t ms

/-- A later state of the same timeline. -/
structure Before (t u : Timeline M) : Prop where
  present : t.present ≤ u.present
  same : ∀ n ≤ t.present, u.at? n = t.at? n

variable {t u v : Timeline M} {m : M} {n : Nat}

@[simp] theorem present_next : (t.next m).present = t.present + 1 := by
  simp [present, next]

theorem at?_present : t.at? t.present = some t.now := by
  simp [at?, present]

theorem at?_next (h : n ≤ t.present) : (t.next m).at? n = t.at? n := by
  have hlt : n < (t.past ++ [t.now]).length := by
    rw [List.length_append, List.length_singleton]
    exact Nat.lt_succ_of_le h
  exact List.getElem?_append_left hlt

theorem at?_next_new : (t.next m).at? (t.present + 1) = some m :=
  present_next (t := t) ▸ at?_present (t := t.next m)

theorem le_present_of_at? (h : t.at? n = some m) : n ≤ t.present := by
  obtain ⟨hlt, -⟩ := List.getElem?_eq_some_iff.mp h
  rw [List.length_append, List.length_singleton] at hlt
  exact Nat.le_of_lt_succ hlt

theorem exists_at? (h : n ≤ t.present) : ∃ m, t.at? n = some m := by
  refine ⟨_, List.getElem?_eq_getElem ?_⟩
  rw [List.length_append, List.length_singleton]
  exact Nat.lt_succ_of_le h

theorem Before.refl (t : Timeline M) : t.Before t := ⟨Nat.le_refl _, fun _ _ => rfl⟩

theorem Before.trans (h : t.Before u) (h' : u.Before v) : t.Before v :=
  ⟨Nat.le_trans h.present h'.present, fun n hn =>
    (h'.same n (Nat.le_trans hn h.present)).trans (h.same n hn)⟩

/-- What was at a moment, was there forever. -/
theorem Before.at? (h : t.Before u) (hm : t.at? n = some m) : u.at? n = some m :=
  (h.same n (le_present_of_at? hm)).trans hm

theorem before_next (t : Timeline M) (m : M) : t.Before (t.next m) :=
  ⟨present_next ▸ Nat.le_succ _, fun _ hn => at?_next hn⟩

theorem before_advance (t : Timeline M) (ms : List M) : t.Before (t.advance ms) :=
  runFrom_invariant (fun _ m h => h.trans (before_next _ m)) ms (Before.refl t)

/-! ## Versions -/

variable {P V S : Type} (version : M → P → Option V) (stamp : V → S)

/-- A state in which every place with another version than before has a stamp
that it never had. -/
def Fresh (t : Timeline M) (m : M) : Prop :=
  ∀ p v, version m p = some v → version t.now p ≠ some v →
    ∀ n m' v', t.at? n = some m' → version m' p = some v' → stamp v' ≠ stamp v

/-- A place with one stamp at two moments had one version all the time. -/
def Marked (t : Timeline M) : Prop :=
  ∀ p i j mi mj vi vj, i ≤ j → t.at? i = some mi → t.at? j = some mj →
    version mi p = some vi → version mj p = some vj → stamp vi = stamp vj →
      ∀ k mk, i ≤ k → k ≤ j → t.at? k = some mk → version mk p = some vi

variable {version stamp}

theorem marked_start (m : M) : Marked version stamp ⟨[], m⟩ := by
  intro p i j mi mj vi vj _ hi _ hvi _ _ k mk _ _ hk
  have hi0 : i = 0 := Nat.le_zero.mp (le_present_of_at? hi)
  have hk0 : k = 0 := Nat.le_zero.mp (le_present_of_at? hk)
  rw [hi0] at hi
  rw [hk0, hi] at hk
  exact Option.some.inj hk ▸ hvi

theorem Marked.next (h : Marked version stamp t) (hm : Fresh version stamp t m) :
    Marked version stamp (t.next m) := by
  intro p i j mi mj vi vj hij hi hj hvi hvj hstamp k mk hik hkj hk
  have hjle := le_present_of_at? hj
  rw [present_next] at hjle
  obtain hjold | rfl : j ≤ t.present ∨ j = t.present + 1 := by omega
  · rw [at?_next hjold] at hj
    rw [at?_next (Nat.le_trans hij hjold)] at hi
    rw [at?_next (Nat.le_trans hkj hjold)] at hk
    exact h p i j mi mj vi vj hij hi hj hvi hvj hstamp k mk hik hkj hk
  · obtain rfl : m = mj := Option.some.inj (at?_next_new.symm.trans hj)
    obtain hiold | rfl : i ≤ t.present ∨ i = t.present + 1 := by omega
    · rw [at?_next hiold] at hi
      -- the stamp is not new, so the place has not been changed now
      have hnow : version t.now p = some vj := Classical.byContradiction fun hne =>
        hm p vj hvj hne i mi vi hi hvi hstamp
      have hold := h p i t.present mi t.now vi vj hiold hi at?_present hvi hnow hstamp
      have hsame : vi = vj :=
        Option.some.inj ((hold t.present t.now hiold (Nat.le_refl _) at?_present).symm.trans hnow)
      obtain hkold | rfl : k ≤ t.present ∨ k = t.present + 1 := by omega
      · rw [at?_next hkold] at hk
        exact hold k mk hik hkold hk
      · obtain rfl : m = mk := Option.some.inj (at?_next_new.symm.trans hk)
        rw [hsame, hvj]
    · obtain rfl : k = t.present + 1 := Nat.le_antisymm hkj hik
      rw [hi] at hk
      exact Option.some.inj hk ▸ hvi

theorem Marked.advance {ms : List M} (h : Marked version stamp t)
    (hms : Meets Timeline.next (Fresh version stamp) t ms) :
    Marked version stamp (t.advance ms) :=
  hms.invariant (fun _ _ hm h => h.next hm) ms h

end Timeline

end Benchhand.Process
