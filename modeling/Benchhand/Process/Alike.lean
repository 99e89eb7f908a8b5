/-
Benchhand.Process.Alike — two functions that run alike.

`Alike h rel p q` says that `p` and `q` make the same of the world, and that
they both resolve, with values that `rel` relates, or both reject with the same
exception. `Same h h' p` says that `p` runs the same under two handlers. There
is one rule for each way to build a function.
-/
import Benchhand.Process.Views

namespace Benchhand.Process

variable {C : Type} {R : C → Type} {W ε α β γ α' β' : Type}

/-- Two outcomes with the worlds they leave. -/
inductive Outcomes (rel : α → β → Prop) : Except ε α × W → Except ε β × W → Prop
  | ok {a : α} {b : β} {w : W} (h : rel a b) : Outcomes rel (.ok a, w) (.ok b, w)
  | error {e : ε} {w : W} : Outcomes rel (.error e, w) (.error e, w)

theorem Outcomes.mono {rel rel' : α → β → Prop} {out : Except ε α × W} {out' : Except ε β × W}
    (hout : Outcomes rel out out') (hrel : ∀ a b, rel a b → rel' a b) : Outcomes rel' out out' := by
  cases hout with
  | ok hab => exact .ok (hrel _ _ hab)
  | error => exact .error

theorem Outcomes.swap {rel : α → β → Prop} {out : Except ε α × W} {out' : Except ε β × W}
    (hout : Outcomes rel out out') : Outcomes (fun b a => rel a b) out' out := by
  cases hout with
  | ok hab => exact .ok hab
  | error => exact .error

/-- From every world the outcomes of the two functions are related. -/
def Async.Alike (h : Handler C R W) (rel : α → β → Prop) (p : Async C R ε α)
    (q : Async C R ε β) : Prop :=
  ∀ w, Outcomes rel (Prog.run h p.run w) (Prog.run h q.run w)

namespace Async

variable {h : Handler C R W} {rel : α → β → Prop} {rel' : α' → β' → Prop} {p : Async C R ε α}
  {q : Async C R ε β}

theorem alike_pure {a : α} {b : β} (hab : rel a b) :
    Alike h rel (pure a : Async C R ε α) (pure b) := fun _ => .ok hab

theorem alike_throw (e : ε) : Alike h rel (throw e : Async C R ε α) (throw e) := fun _ => .error

theorem Alike.mono {rel'' : α → β → Prop} (hp : Alike h rel p q)
    (hrel : ∀ a b, rel a b → rel'' a b) : Alike h rel'' p q := fun w => (hp w).mono hrel

/-- A function runs like itself. -/
theorem alike_refl (p : Async C R ε α) : Alike h (fun a b => a = b) p p := by
  intro w
  generalize Prog.run h p.run w = out
  obtain ⟨outcome, w'⟩ := out
  cases outcome with
  | ok a => exact .ok rfl
  | error e => exact .error

/-- A function and its value seen through `g`. -/
theorem alike_map (g : α → β) (p : Async C R ε α) : Alike h (fun a b => b = g a) p (g <$> p) := by
  intro w
  rw [run_map]
  generalize Prog.run h p.run w = out
  obtain ⟨outcome, w'⟩ := out
  cases outcome with
  | ok a => exact .ok rfl
  | error e => exact .error

theorem Alike.bind {f : α → Async C R ε α'} {g : β → Async C R ε β'} (hp : Alike h rel p q)
    (hf : ∀ a b, rel a b → Alike h rel' (f a) (g b)) : Alike h rel' (p >>= f) (q >>= g) := by
  intro w
  have hrun : Prog.run h (p >>= f).run w = _ := Prog.run_bind p.run _ w
  have hrun' : Prog.run h (q >>= g).run w = _ := Prog.run_bind q.run _ w
  rw [hrun, hrun']
  have hw := hp w
  generalize Prog.run h p.run w = out at hw
  generalize Prog.run h q.run w = out' at hw
  cases hw with
  | ok hab => exact hf _ _ hab _
  | error => exact .error

/-- The first part is the same. -/
theorem alike_bind_same {p : Async C R ε γ} {f : γ → Async C R ε α} {g : γ → Async C R ε β}
    (hf : ∀ c, Alike h rel (f c) (g c)) : Alike h rel (p >>= f) (p >>= g) :=
  (alike_refl p).bind fun c _ hc => hc ▸ hf c

theorem alike_tryCatch {handle : ε → Async C R ε α} {handle' : ε → Async C R ε β}
    (hp : Alike h rel p q) (hhandle : ∀ e, Alike h rel (handle e) (handle' e)) :
    Alike h rel (tryCatch p handle) (tryCatch q handle') := by
  intro w
  have hrun : Prog.run h (tryCatch p handle : Async C R ε α).run w = _ :=
    Prog.run_bind p.run _ w
  have hrun' : Prog.run h (tryCatch q handle' : Async C R ε β).run w = _ :=
    Prog.run_bind q.run _ w
  rw [hrun, hrun']
  have hw := hp w
  generalize Prog.run h p.run w = out at hw
  generalize Prog.run h q.run w = out' at hw
  cases hw with
  | ok hab => exact .ok hab
  | error => exact hhandle _ _

/-- When one resolves, so does the other. -/
theorem Alike.ok {a : α} {w w' : W} (hp : Alike h rel p q)
    (hrun : Prog.run h p.run w = (.ok a, w')) :
    ∃ b, rel a b ∧ Prog.run h q.run w = (.ok b, w') := by
  have hw := hp w
  rw [hrun] at hw
  generalize Prog.run h q.run w = out at hw
  cases hw with
  | ok hab => exact ⟨_, hab, rfl⟩

theorem Alike.symm (hp : Alike h rel p q) : Alike h (fun b a => rel a b) q p :=
  fun w => (hp w).swap

/-! ## Two handlers -/

/-- From every world the function runs the same under both handlers. -/
def Same (h h' : Handler C R W) (p : Async C R ε α) : Prop :=
  ∀ w, Prog.run h p.run w = Prog.run h' p.run w

variable {h' : Handler C R W}

theorem same_pure (a : α) : Same h h' (pure a : Async C R ε α) := fun _ => rfl

theorem same_throw (e : ε) : Same h h' (throw e : Async C R ε α) := fun _ => rfl

/-- A call that both handlers answer alike. -/
theorem same_request {c : C} (hc : ∀ w, h c w = h' c w) (answer : R c → Except ε α) :
    Same h h' (request c answer) := by
  intro w
  change (answer (h c w).1, (h c w).2) = (answer (h' c w).1, (h' c w).2)
  rw [hc]

theorem Same.bind {f : α → Async C R ε α'} (hp : Same h h' p) (hf : ∀ a, Same h h' (f a)) :
    Same h h' (p >>= f) := by
  intro w
  have hrun (g : Handler C R W) : Prog.run g (p >>= f).run w = _ := Prog.run_bind p.run _ w
  rw [hrun, hrun, hp w]
  generalize Prog.run h' p.run w = out
  obtain ⟨outcome, w'⟩ := out
  cases outcome with
  | ok a => exact hf a w'
  | error e => rfl

theorem Same.map (g : α → α') (hp : Same h h' p) : Same h h' (g <$> p) := by
  intro w
  rw [run_map, run_map, hp w]

theorem same_tryCatch {handle : ε → Async C R ε α} (hp : Same h h' p)
    (hhandle : ∀ e, Same h h' (handle e)) : Same h h' (tryCatch p handle) := by
  intro w
  have hrun (g : Handler C R W) : Prog.run g (tryCatch p handle : Async C R ε α).run w = _ :=
    Prog.run_bind p.run _ w
  rw [hrun, hrun, hp w]
  generalize Prog.run h' p.run w = out
  obtain ⟨outcome, w'⟩ := out
  cases outcome with
  | ok a => rfl
  | error e => exact hhandle e w'

theorem same_tryFinally {cleanup : Async C R ε PUnit} (hp : Same h h' p)
    (hcleanup : Same h h' cleanup) : Same h h' (tryFinally p cleanup) := by
  intro w
  have hrun (g : Handler C R W) : Prog.run g (tryFinally p cleanup : Async C R ε α).run w =
      _ := (congrArg (fun q => Prog.run g q w) (run_tryFinally p cleanup)).trans
        (Prog.run_bind p.run _ w)
  rw [hrun, hrun, hp w]
  generalize Prog.run h' p.run w = out
  obtain ⟨outcome, w'⟩ := out
  change Prog.run h (Prog.bind cleanup.run _) w' = Prog.run h' (Prog.bind cleanup.run _) w'
  rw [Prog.run_bind, Prog.run_bind, hcleanup w']
  generalize Prog.run h' cleanup.run w' = last
  obtain ⟨result, w''⟩ := last
  cases result <;> rfl

end Async

end Benchhand.Process
