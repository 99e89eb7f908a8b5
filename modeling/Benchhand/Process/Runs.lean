/-
Benchhand.Process.Runs — runs of a system that takes one step after another.

A system is a step function on states; an action that is not possible changes
nothing. `run_invariant` is the induction over a run. `Meets` says that every
step of a run meets a condition on the state before it, and `Meets.invariant`
is the induction over such a run.
-/
import Mathlib.Logic.Basic

namespace Benchhand.Process

variable {S A : Type} (step : S → A → S)

/-- The actions one after the other. -/
def runFrom (s : S) (actions : List A) : S := actions.foldl step s

/-- Every step meets a condition on the state before it. -/
def Meets (cond : S → A → Prop) : S → List A → Prop
  | _, [] => True
  | s, a :: actions => cond s a ∧ Meets cond (step s a) actions

variable {step}

instance instDecidableMeets {cond : S → A → Prop} [∀ s a, Decidable (cond s a)] :
    ∀ (s : S) (actions : List A), Decidable (Meets step cond s actions)
  | _, [] => .isTrue trivial
  | s, a :: actions =>
      have : Decidable (Meets step cond (step s a) actions) :=
        instDecidableMeets (step s a) actions
      inferInstanceAs (Decidable (cond s a ∧ Meets step cond (step s a) actions))

@[simp] theorem runFrom_nil (s : S) : runFrom step s [] = s := rfl

@[simp] theorem runFrom_cons (s : S) (a : A) (actions : List A) :
    runFrom step s (a :: actions) = runFrom step (step s a) actions := rfl

theorem runFrom_append (s : S) (actions more : List A) :
    runFrom step s (actions ++ more) = runFrom step (runFrom step s actions) more :=
  List.foldl_append

/-- What every step keeps, a run keeps. -/
theorem runFrom_invariant {I : S → Prop} (hstep : ∀ s a, I s → I (step s a)) :
    ∀ (actions : List A) {s : S}, I s → I (runFrom step s actions)
  | [], _, h => h
  | a :: actions, s, h => runFrom_invariant hstep actions (hstep s a h)

/-- What every step that meets the condition keeps, such a run keeps. -/
theorem Meets.invariant {cond : S → A → Prop} {I : S → Prop}
    (hstep : ∀ s a, cond s a → I s → I (step s a)) :
    ∀ (actions : List A) {s : S}, Meets step cond s actions → I s → I (runFrom step s actions)
  | [], _, _, h => h
  | a :: actions, s, hmeets, h =>
      Meets.invariant hstep actions hmeets.2 (hstep s a hmeets.1 h)

/-- What the steps of such a run meet, as long as an invariant holds. -/
theorem Meets.imp {cond cond' : S → A → Prop} {I : S → Prop}
    (hstep : ∀ s a, cond s a → I s → I (step s a) ∧ cond' s a) :
    ∀ (actions : List A) {s : S}, Meets step cond s actions → I s → Meets step cond' s actions
  | [], _, _, _ => trivial
  | a :: actions, s, hmeets, h =>
      ⟨(hstep s a hmeets.1 h).2,
        Meets.imp hstep actions hmeets.2 (hstep s a hmeets.1 h).1⟩

theorem Meets.mono {cond cond' : S → A → Prop} (h : ∀ s a, cond s a → cond' s a) :
    ∀ (actions : List A) {s : S}, Meets step cond s actions → Meets step cond' s actions
  | [], _, _ => trivial
  | _ :: actions, _, hmeets => ⟨h _ _ hmeets.1, Meets.mono h actions hmeets.2⟩

theorem Meets.append {cond : S → A → Prop} {more : List A} :
    ∀ (actions : List A) {s : S}, Meets step cond s actions →
      Meets step cond (runFrom step s actions) more → Meets step cond s (actions ++ more)
  | [], _, _, h => h
  | _ :: actions, _, hmeets, h => ⟨hmeets.1, Meets.append actions hmeets.2 h⟩

theorem Meets.of_forall {cond : S → A → Prop} (h : ∀ s a, cond s a) :
    ∀ (actions : List A) (s : S), Meets step cond s actions
  | [], _ => trivial
  | a :: actions, s => ⟨h s a, Meets.of_forall h actions (step s a)⟩

theorem Meets.congr {cond cond' : S → A → Prop} (h : ∀ s a, cond s a ↔ cond' s a) :
    ∀ (actions : List A) (s : S), Meets step cond s actions ↔ Meets step cond' s actions
  | [], _ => Iff.rfl
  | a :: actions, s => and_congr (h s a) (Meets.congr h actions (step s a))

/-! ## Components -/

/-- What stands in a list of components after one of them has changed. -/
theorem getElem?_set_cases {α : Type} {l : List α} {i j : Nat} {a b : α}
    (h : (l.set i a)[j]? = some b) : (j = i ∧ b = a) ∨ (j ≠ i ∧ l[j]? = some b) := by
  by_cases hj : j = i
  · subst hj
    obtain ⟨hlen, -⟩ := List.getElem?_eq_some_iff.mp h
    rw [List.getElem?_set_self (by simpa using hlen)] at h
    exact .inl ⟨rfl, (Option.some.inj h).symm⟩
  · rw [List.getElem?_set_ne (Ne.symm hj)] at h
    exact .inr ⟨hj, h⟩

end Benchhand.Process
