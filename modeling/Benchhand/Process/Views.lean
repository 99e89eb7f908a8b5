/-
Benchhand.Process.Views — a family of functions that is one function.

Functions with a parameter often differ in what they keep in their state and
in nothing else. `SeenAs view p` says that there is one function whose result,
seen through the view of a parameter, is the result of `p` at that parameter;
so all of them make the same calls. It has one rule for each way to build a
function.
-/
import Benchhand.Process.ProgramTheorems
import Mathlib.Tactic.Choose

namespace Benchhand.Process

variable {C : Type} {R : C → Type} {W ε L α β τ υ : Type}

/-! ## Laws -/

theorem Prog.bind_done (p : Prog C R α) : p.bind .done = p := by
  induction p with
  | done a => rfl
  | call c next ih => exact congrArg (Prog.call c) (funext ih)

instance : LawfulMonad (Prog C R) :=
  LawfulMonad.mk' (Prog C R) Prog.bind_done (fun _ _ => rfl) Prog.bind_assoc

theorem Async.run_map (g : α → β) (p : Async C R ε α) (h : Handler C R W) (w : W) :
    Prog.run h (g <$> p).run w =
      ((Prog.run h p.run w).1.map g, (Prog.run h p.run w).2) := by
  refine (Prog.run_bind p.run _ w).trans ?_
  cases (Prog.run h p.run w).1 <;> rfl

theorem Async.run_map_ok {g : α → β} {p : Async C R ε α} {h : Handler C R W} {w w' : W} {b : β} :
    Prog.run h (g <$> p).run w = (.ok b, w') ↔
      ∃ a, Prog.run h p.run w = (.ok a, w') ∧ g a = b := by
  rw [Async.run_map]
  generalize Prog.run h p.run w = out
  obtain ⟨outcome, v⟩ := out
  cases outcome with
  | ok a =>
      constructor
      · intro heq
        cases heq
        exact ⟨a, rfl, rfl⟩
      · rintro ⟨a', heq, rfl⟩
        cases heq
        rfl
  | error e =>
      refine ⟨fun heq => (by cases heq), ?_⟩
      rintro ⟨a', heq, -⟩
      cases heq

theorem Async.run_map_error {g : α → β} {p : Async C R ε α} {h : Handler C R W} {w w' : W} {e : ε} :
    Prog.run h (g <$> p).run w = (.error e, w') ↔ Prog.run h p.run w = (.error e, w') := by
  rw [Async.run_map]
  generalize Prog.run h p.run w = out
  obtain ⟨outcome, v⟩ := out
  cases outcome with
  | ok a => exact ⟨fun heq => (by cases heq), fun heq => (by cases heq)⟩
  | error e' =>
      constructor
      · intro heq
        cases heq
        rfl
      · intro heq
        cases heq
        rfl

theorem Async.map_tryFinally (g : α → β) (p : Async C R ε α) (cleanup : Async C R ε PUnit) :
    g <$> tryFinally p cleanup = tryFinally (g <$> p) cleanup := by
  refine ExceptT.ext ?_
  rw [Async.run_tryFinally, ExceptT.run_map, Async.run_tryFinally, ExceptT.run_map]
  change Prog.bind (Prog.bind p.run _) _ = Prog.bind (Prog.bind p.run _) _
  rw [Prog.bind_assoc, Prog.bind_assoc]
  refine congrArg (Prog.bind p.run) (funext fun outcome => ?_)
  change Prog.bind (Prog.bind cleanup.run _) _ = Prog.bind cleanup.run _
  rw [Prog.bind_assoc]
  refine congrArg (Prog.bind cleanup.run) (funext fun last => ?_)
  cases last <;> rfl

/-! ## Families -/

/-- One function, seen through the views of the parameters. -/
def SeenAs (view : L → τ → α) (p : L → Async C R ε α) : Prop :=
  ∃ q : Async C R ε τ, ∀ l, p l = view l <$> q

variable {view : L → τ → α}

/-- The runs of a family differ in how their outcome is seen. -/
theorem SeenAs.exists_run {p : L → Async C R ε α} (hp : SeenAs view p) (h : Handler C R W)
    (w : W) : ∃ (outcome : Except ε τ) (w' : W), ∀ l,
      Prog.run h (p l).run w = (outcome.map (view l), w') := by
  obtain ⟨q, hq⟩ := hp
  exact ⟨(Prog.run h q.run w).1, (Prog.run h q.run w).2,
    fun l => (congrArg (fun p => Prog.run h p.run w) (hq l)).trans (Async.run_map (view l) q h w)⟩

theorem seenAs_pure {a : L → α} (t : τ) (h : ∀ l, a l = view l t) :
    SeenAs view fun l => (pure (a l) : Async C R ε α) :=
  ⟨pure t, fun l => (congrArg pure (h l)).trans (map_pure (view l) t).symm⟩

theorem seenAs_bind {p : L → Async C R ε α} {f : L → α → Async C R ε β} {view' : L → υ → β}
    (hp : SeenAs view p) (hf : ∀ t, SeenAs view' fun l => f l (view l t)) :
    SeenAs view' fun l => p l >>= f l := by
  obtain ⟨q, hq⟩ := hp
  choose r hr using hf
  refine ⟨q >>= r, fun l => ?_⟩
  simp only [hq, bind_map_left, map_bind, hr]

/-- The first part does not depend on the parameter. -/
theorem seenAs_bind_same {p : Async C R ε β} {f : L → β → Async C R ε α}
    (hf : ∀ b, SeenAs view fun l => f l b) : SeenAs view fun l => p >>= f l := by
  choose r hr using hf
  refine ⟨p >>= r, fun l => ?_⟩
  rw [map_bind]
  exact bind_congr fun b => hr b l

theorem seenAs_tryFinally {p : L → Async C R ε α} {cleanup : Async C R ε PUnit}
    (hp : SeenAs view p) : SeenAs view fun l => tryFinally (p l) cleanup := by
  obtain ⟨q, hq⟩ := hp
  refine ⟨tryFinally q cleanup, fun l => ?_⟩
  simp only [hq, Async.map_tryFinally]

/-- A condition that is the same for all parameters. -/
theorem seenAs_ite {cond : L → Prop} {_ : ∀ l, Decidable (cond l)} (c : Prop)
    {p q : L → Async C R ε α} (hcond : ∀ l, cond l ↔ c) (hp : c → SeenAs view p)
    (hq : ¬ c → SeenAs view q) : SeenAs view fun l => if cond l then p l else q l := by
  by_cases h : c
  · simpa only [if_pos ((hcond _).mpr h)] using hp h
  · simpa only [if_neg (mt (hcond _).mp h)] using hq h

end Benchhand.Process
