/-
Benchhand.Process.Steps — a program that runs call by call.

A call can go one way or another, and `respond f` is the handler of the way `f`:
it is carried out, it fails like this, and so on. `Prog.Steps` is a part of a
run in which each call goes as it is listed, and `Prog.runAs` is a whole run of
that kind. A world that several programs share sees their calls in any order;
each program makes its own ones by `Prog.Steps`.
-/
import Benchhand.Process.ProgramTheorems

namespace Benchhand.Process

variable {C : Type} {R : C → Type} {W F α : Type}

/-- The program makes calls that go as listed, and comes to the rest of it. -/
inductive Prog.Steps (respond : F → Handler C R W) :
    Prog C R α → W → List F → Prog C R α → W → Prop
  | nil (p : Prog C R α) (w : W) : Steps respond p w [] p w
  | cons {c : C} {next : R c → Prog C R α} {w w' : W} {f : F} {fs : List F} {q : Prog C R α}
      (h : Steps respond (next (respond f c w).1) (respond f c w).2 fs q w') :
      Steps respond (.call c next) w (f :: fs) q w'

/-- A run whose calls go as listed, and any calls after those as `last`. -/
def Prog.runAs (respond : F → Handler C R W) (last : F) :
    List F → Prog C R α → W → α × W
  | _, .done a, w => (a, w)
  | fs, .call c next, w =>
      runAs respond last fs.tail (next (respond (fs.headD last) c w).1)
        (respond (fs.headD last) c w).2

namespace Prog

variable {respond : F → Handler C R W} {last f : F} {fs gs : List F} {p q r : Prog C R α}
  {w w' w'' : W}

@[simp] theorem runAs_done (a : α) (w : W) :
    runAs respond last fs (.done (R := R) a) w = (a, w) := by
  unfold runAs
  rfl

theorem Steps.trans (h : Steps respond p w fs q w') (h' : Steps respond q w' gs r w'') :
    Steps respond p w (fs ++ gs) r w'' := by
  induction h with
  | nil p w => exact h'
  | cons h ih => exact .cons (ih h')

/-- One more call. -/
theorem Steps.call {c : C} {next : R c → Prog C R α}
    (h : Steps respond p w fs (.call c next) w') (f : F) :
    Steps respond p w (fs ++ [f]) (next (respond f c w').1) (respond f c w').2 :=
  h.trans (.cons (.nil _ _))

/-- Without a call nothing happens. -/
theorem steps_nil : Steps respond p w [] q w' ↔ p = q ∧ w = w' := by
  constructor
  · intro h
    cases h
    exact ⟨rfl, rfl⟩
  · rintro ⟨rfl, rfl⟩
    exact .nil p w

/-- What the calls keep. -/
theorem Steps.invariant {I : W → Prop} (h : Steps respond p w fs q w')
    (hstep : ∀ f ∈ fs, ∀ c w, I w → I (respond f c w).2) (hw : I w) : I w' := by
  induction h with
  | nil p w => exact hw
  | cons h ih =>
      exact ih (fun f hf => hstep f (List.mem_cons_of_mem _ hf))
        (hstep _ List.mem_cons_self _ _ hw)

/-- Calls that come to the end are the whole run. -/
theorem Steps.runAs {a : α} (h : Steps respond p w fs (.done a) w') :
    runAs respond last fs p w = (a, w') := by
  generalize hq : Prog.done a = q at h
  induction h with
  | nil p w =>
      subst hq
      exact runAs_done a w
  | cons h ih =>
      unfold Prog.runAs
      exact ih hq

/-- Calls that all go as the last one are a plain run. -/
theorem runAs_last (p : Prog C R α) :
    ∀ (fs : List F) (w : W), (∀ f ∈ fs, f = last) →
      Prog.runAs respond last fs p w = p.run (respond last) w := by
  induction p with
  | done a =>
      intro fs w _
      exact runAs_done a w
  | call c next ih =>
      intro fs w hfs
      have hhead : fs.headD last = last := by
        cases fs with
        | nil => rfl
        | cons f fs => exact hfs f List.mem_cons_self
      unfold Prog.runAs
      rw [hhead]
      exact ih _ _ _ fun f hf => hfs f (List.mem_of_mem_tail hf)

end Prog

end Benchhand.Process
