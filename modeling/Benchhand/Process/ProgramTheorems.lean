/-
Benchhand.Process.ProgramTheorems — the rules of programs.

`Async.wp_bind`, `wp_tryCatch`, `wp_tryFinally` and their companions read
`Async.Wp` off a function's text; `Prog.run_invariant` is the induction over a
run; `Prog.Uses` has one rule for each way to build a program, and
`Prog.run_agree` is what it is for: two worlds that no allowed call can tell
apart give the same outcome.
-/
import Benchhand.Process.Program

namespace Benchhand.Process

variable {C : Type} {R : C → Type} {W ε σ α β : Type} {h : Handler C R W}

/-! ## Runs -/

namespace Prog

@[simp] theorem run_done (a : α) (w : W) : (Prog.done (R := R) a).run h w = (a, w) := rfl

@[simp] theorem run_call (c : C) (next : R c → Prog C R α) (w : W) :
    (Prog.call c next).run h w = (next (h c w).1).run h (h c w).2 := rfl

theorem run_bind (p : Prog C R α) (f : α → Prog C R β) (w : W) :
    (p.bind f).run h w = (f (p.run h w).1).run h (p.run h w).2 := by
  induction p generalizing w with
  | done a => rfl
  | call c next ih => exact ih (h c w).1 (h c w).2

theorem bind_assoc {γ : Type} (p : Prog C R α) (f : α → Prog C R β) (g : β → Prog C R γ) :
    (p.bind f).bind g = p.bind fun a => (f a).bind g := by
  induction p with
  | done a => rfl
  | call c next ih => exact congrArg (Prog.call c) (funext ih)

/-- What every call keeps, a run keeps. -/
theorem run_invariant {I : W → Prop} (hstep : ∀ c w, I w → I (h c w).2) (p : Prog C R α) :
    ∀ w, I w → I (p.run h w).2 := by
  induction p with
  | done a => exact fun w hw => hw
  | call c next ih => exact fun w hw => ih (h c w).1 (h c w).2 (hstep c w hw)

/-! ## Allowed calls -/

section
variable {allowed : C → Prop}

theorem uses_bind {p : Prog C R α} {f : α → Prog C R β} (hp : p.Uses allowed)
    (hf : ∀ a, (f a).Uses allowed) : (p.bind f).Uses allowed := by
  induction p with
  | done a => exact hf a
  | call c next ih => exact ⟨hp.1, fun r => ih r (hp.2 r)⟩

theorem uses_any : ∀ p : Prog C R α, p.Uses fun _ => True
  | .done _ => trivial
  | .call _ next => ⟨trivial, fun r => uses_any (next r)⟩

theorem Uses.mono {allowed' : C → Prop} (h : ∀ c, allowed c → allowed' c) :
    ∀ {p : Prog C R α}, p.Uses allowed → p.Uses allowed'
  | .done _, _ => trivial
  | .call _ _, hp => ⟨h _ hp.1, fun r => mono h (hp.2 r)⟩

theorem Uses.next {c : C} {next : R c → Prog C R α} (hp : (Prog.call c next).Uses allowed)
    (r : R c) : (next r).Uses allowed := hp.2 r

theorem Uses.step {p : Prog C R α} (hp : p.Uses allowed) (w : W) :
    (p.step h w).1.Uses allowed := by
  cases p with
  | done a => trivial
  | call c next => exact hp.2 _

/-- What every allowed call keeps, a run of allowed calls keeps. -/
theorem Uses.run_invariant {I : W → Prop} (hstep : ∀ c w, allowed c → I w → I (h c w).2)
    {p : Prog C R α} (hp : p.Uses allowed) : ∀ w, I w → I (p.run h w).2 := by
  induction p with
  | done a => exact fun w hw => hw
  | call c next ih =>
      exact fun w hw => ih (h c w).1 (hp.2 _) (h c w).2 (hstep c w hp.1 hw)

/-- Worlds no allowed call can tell apart stay so, and give one outcome. -/
theorem Uses.run_agree {V : Type} {g : Handler C R V} {Agree : W → V → Prop}
    (hstep : ∀ c w v, allowed c → Agree w v →
      (h c w).1 = (g c v).1 ∧ Agree (h c w).2 (g c v).2)
    {p : Prog C R α} (hp : p.Uses allowed) :
    ∀ w v, Agree w v → (p.run h w).1 = (p.run g v).1 ∧ Agree (p.run h w).2 (p.run g v).2 := by
  induction p with
  | done a => exact fun w v hwv => ⟨rfl, hwv⟩
  | call c next ih =>
      intro w v hwv
      obtain ⟨hanswer, hagree⟩ := hstep c w v hp.1 hwv
      simp only [run_call, hanswer]
      exact ih (g c v).1 (hp.2 _) _ _ hagree

end

end Prog

/-! ## Async functions -/

namespace Async

variable {p : Async C R ε α} {f : α → Async C R ε β} {Q : α → W → Prop} {E : ε → W → Prop} {w : W}

theorem wp_iff : Wp h p Q E w ↔
    match (Prog.run h p.run w).1 with
    | .ok a => Q a (Prog.run h p.run w).2
    | .error e => E e (Prog.run h p.run w).2 := by
  unfold Wp
  generalize Prog.run h p.run w = out
  obtain ⟨outcome, w'⟩ := out
  cases outcome <;> rfl

@[simp] theorem wp_pure {a : α} : Wp h (pure a : Async C R ε α) Q E w ↔ Q a w := Iff.rfl

@[simp] theorem wp_throw {e : ε} : Wp h (throw e : Async C R ε α) Q E w ↔ E e w := Iff.rfl

theorem wp_request {c : C} {answer : R c → Except ε α} :
    Wp h (request c answer) Q E w ↔
      match answer (h c w).1 with
      | .ok a => Q a (h c w).2
      | .error e => E e (h c w).2 := by
  rw [wp_iff]
  rfl

/-- The run of a function that goes on with the outcome of another. -/
theorem wp_then {q : Async C R ε β} {k : Except ε α → Prog C R (Except ε β)}
    {S : β → W → Prop} {F : ε → W → Prop} (hq : q.run = Prog.bind p.run k) :
    Wp h q S F w ↔
      Wp h p (fun a => Wp h (ExceptT.mk (k (.ok a))) S F)
        (fun e => Wp h (ExceptT.mk (k (.error e))) S F) w := by
  unfold Wp
  rw [hq, Prog.run_bind]
  generalize Prog.run h p.run w = out
  obtain ⟨outcome, w'⟩ := out
  cases outcome <;> rfl

theorem wp_bind {S : β → W → Prop} :
    Wp h (p >>= f) S E w ↔ Wp h p (fun a => Wp h (f a) S E) E w := wp_then rfl

/-- A function that goes on resolves when both of its parts do. -/
theorem run_bind_ok {b : β} {w' : W} : Prog.run h (p >>= f).run w = (.ok b, w') ↔
    ∃ a v, Prog.run h p.run w = (.ok a, v) ∧ Prog.run h (f a).run v = (.ok b, w') := by
  have hrun : Prog.run h (p >>= f).run w = _ := Prog.run_bind p.run _ w
  rw [hrun]
  generalize Prog.run h p.run w = out
  obtain ⟨outcome, v⟩ := out
  cases outcome with
  | ok a =>
      refine ⟨fun hf => ⟨a, v, rfl, hf⟩, ?_⟩
      rintro ⟨a', v', heq, hf⟩
      obtain ⟨rfl, rfl⟩ : a = a' ∧ v = v' := by simpa using heq
      exact hf
  | error e =>
      refine ⟨fun hf => (by cases hf), ?_⟩
      rintro ⟨a', v', heq, -⟩
      cases heq

theorem run_bind_of_ok {a : α} {v : W} (hp : Prog.run h p.run w = (.ok a, v)) :
    Prog.run h (p >>= f).run w = Prog.run h (f a).run v := by
  refine (Prog.run_bind p.run _ w).trans ?_
  rw [hp]
  rfl

/-- A function that rejects does not go on. -/
theorem run_bind_of_error {e : ε} {v : W} (hp : Prog.run h p.run w = (.error e, v)) :
    Prog.run h (p >>= f).run w = (.error e, v) := by
  refine (Prog.run_bind p.run _ w).trans ?_
  rw [hp]
  rfl

theorem wp_map {g : α → β} {S : β → W → Prop} :
    Wp h (g <$> p) S E w ↔ Wp h p (fun a => S (g a)) E w := wp_then rfl

theorem wp_tryCatch {handle : ε → Async C R ε α} :
    Wp h (tryCatch p handle) Q E w ↔ Wp h p Q (fun e => Wp h (handle e) Q E) w := wp_then rfl

theorem wp_mapError {g : ε → ε} :
    Wp h (mapError g p) Q E w ↔ Wp h p Q (fun e => E (g e)) w := wp_tryCatch

theorem wp_ignoreErrors {p : Async C R ε PUnit} {Q : PUnit → W → Prop} :
    Wp h (ignoreErrors p) Q E w ↔ Wp h p Q (fun _ => Q ⟨⟩) w := wp_tryCatch

theorem run_tryFinally (p : Async C R ε α) (cleanup : Async C R ε β) :
    (tryFinally p cleanup).run = Prog.bind p.run fun outcome => cleanup.run.bind fun
      | .ok _ => .done outcome
      | .error e => .done (.error e) := by
  simp only [tryFinally, tryFinally', ExceptT.run, ExceptT.mk, Functor.map, ExceptT.map, bind,
    pure, Prog.bind_assoc]
  congr 1
  funext outcome
  cases outcome with
  | ok a =>
      simp only [Prog.bind]
      congr 1
      funext last
      cases last <;> rfl
  | error e =>
      simp only [Prog.bind]
      congr 1
      funext last
      cases last <;> rfl

/-- The cleanup runs after either outcome, and its own exception wins. -/
theorem wp_tryFinally {cleanup : Async C R ε β} :
    Wp h (tryFinally p cleanup) Q E w ↔
      Wp h p (fun a => Wp h cleanup (fun _ => Q a) E) (fun e => Wp h cleanup (fun _ => E e) E)
        w := by
  rw [wp_then (run_tryFinally p cleanup)]
  exact Iff.of_eq (congrArg₂ (fun S F => Wp h p S F w)
    (funext fun a => funext fun v => propext (wp_then rfl))
    (funext fun e => funext fun v => propext (wp_then rfl)))

theorem Wp.mono {Q' : α → W → Prop} {E' : ε → W → Prop} (hp : Wp h p Q E w)
    (hQ : ∀ a w', Q a w' → Q' a w') (hE : ∀ e w', E e w' → E' e w') : Wp h p Q' E' w := by
  rw [wp_iff] at hp ⊢
  split at hp
  · exact hQ _ _ hp
  · exact hE _ _ hp

theorem Wp.and {Q' : α → W → Prop} {E' : ε → W → Prop} (hp : Wp h p Q E w)
    (hp' : Wp h p Q' E' w) :
    Wp h p (fun a w' => Q a w' ∧ Q' a w') (fun e w' => E e w' ∧ E' e w') w := by
  rw [wp_iff] at hp hp' ⊢
  split at hp
  · rename_i heq
    rw [heq] at hp'
    exact ⟨hp, hp'⟩
  · rename_i heq
    rw [heq] at hp'
    exact ⟨hp, hp'⟩

/-- What every call keeps holds at the end. -/
theorem wp_invariant {I : W → Prop} (hstep : ∀ c w, I w → I (h c w).2) (hw : I w) :
    Wp h p (fun _ => I) (fun _ => I) w := by
  have hend := Prog.run_invariant hstep p.run w hw
  rw [wp_iff]
  split <;> exact hend

/-! ### Allowed calls -/

section
variable {allowed : C → Prop}

/-- Every call the function can make is allowed. -/
def Uses (allowed : C → Prop) (p : Async C R ε α) : Prop := Prog.Uses allowed p.run

theorem uses_pure {a : α} : Uses allowed (pure a : Async C R ε α) := trivial

theorem uses_throw {e : ε} : Uses allowed (throw e : Async C R ε α) := trivial

theorem uses_request {c : C} {answer : R c → Except ε α} (hc : allowed c) :
    Uses allowed (request c answer) := ⟨hc, fun _ => trivial⟩

theorem uses_bind (hp : Uses allowed p) (hf : ∀ a, Uses allowed (f a)) :
    Uses allowed (p >>= f) := by
  refine Prog.uses_bind hp fun outcome => ?_
  cases outcome with
  | ok a => exact hf a
  | error e => trivial

theorem uses_map {g : α → β} (hp : Uses allowed p) : Uses allowed (g <$> p) := by
  refine Prog.uses_bind hp fun outcome => ?_
  cases outcome <;> trivial

theorem uses_tryCatch {handle : ε → Async C R ε α} (hp : Uses allowed p)
    (hf : ∀ e, Uses allowed (handle e)) : Uses allowed (tryCatch p handle) := by
  refine Prog.uses_bind hp fun outcome => ?_
  cases outcome with
  | ok a => trivial
  | error e => exact hf e

theorem uses_mapError {g : ε → ε} (hp : Uses allowed p) : Uses allowed (mapError g p) :=
  uses_tryCatch hp fun _ => uses_throw

theorem uses_ignoreErrors {p : Async C R ε PUnit} (hp : Uses allowed p) :
    Uses allowed (ignoreErrors p) := uses_tryCatch hp fun _ => uses_pure

theorem uses_tryFinally {cleanup : Async C R ε β} (hp : Uses allowed p)
    (hc : Uses allowed cleanup) : Uses allowed (tryFinally p cleanup) := by
  unfold Uses
  rw [run_tryFinally]
  refine Prog.uses_bind hp fun _ => Prog.uses_bind hc fun last => ?_
  cases last <;> trivial

end

end Async

/-! ## Bodies with local variables -/

namespace Local

variable {p : Local C R ε σ α} {f : α → Local C R ε σ β} {Q : α → σ → W → Prop}
  {E : ε → σ → W → Prop} {s : σ} {w : W}

@[simp] theorem wp_pure {a : α} : Wp h (pure a : Local C R ε σ α) Q E s w ↔ Q a s w := Iff.rfl

@[simp] theorem wp_assign {g : σ → σ} {Q : PUnit → σ → W → Prop} :
    Wp h (assign g : Local C R ε σ PUnit) Q E s w ↔ Q ⟨⟩ (g s) w := Iff.rfl

theorem wp_bind {S : β → σ → W → Prop} :
    Wp h (p >>= f) S E s w ↔ Wp h p (fun a => Wp h (f a) S E) E s w := by
  unfold Wp
  simp only [Bind.bind, Local.bind, Prog.run_bind]
  generalize Prog.run h (p s) w = out
  obtain ⟨⟨outcome, t⟩, w'⟩ := out
  cases outcome <;> rfl

theorem wp_lift {p : Async C R ε α} :
    Wp h (liftM p : Local C R ε σ α) Q E s w ↔
      Async.Wp h p (fun a => Q a s) (fun e => E e s) w := by
  unfold Wp Async.Wp
  simp only [liftM, monadLift, MonadLift.monadLift, lift, Prog.run_bind]
  generalize Prog.run h p.run w = out
  obtain ⟨outcome, w'⟩ := out
  cases outcome <;> rfl

theorem Wp.mono {Q' : α → σ → W → Prop} {E' : ε → σ → W → Prop} (hp : Wp h p Q E s w)
    (hQ : ∀ a t w', Q a t w' → Q' a t w') (hE : ∀ e t w', E e t w' → E' e t w') :
    Wp h p Q' E' s w := by
  unfold Wp at hp ⊢
  split at hp
  · exact hQ _ _ _ hp
  · exact hE _ _ _ hp

/-- The cleanup sees the variables as the body left them. -/
theorem wp_tryFinally {body : Local C R ε σ α} {cleanup : σ → Async C R ε PUnit} {init : σ}
    {Q : α → W → Prop} {E : ε → W → Prop} :
    Async.Wp h (tryFinally init body cleanup) Q E w ↔
      Wp h body (fun a s => Async.Wp h (cleanup s) (fun _ => Q a) E)
        (fun e s => Async.Wp h (cleanup s) (fun _ => E e) E) init w := by
  unfold Wp Async.Wp tryFinally
  simp only [ExceptT.run, ExceptT.mk, Prog.run_bind]
  generalize Prog.run h (body init) w = out
  obtain ⟨⟨outcome, t⟩, w'⟩ := out
  generalize hlast : Prog.run h (cleanup t) w' = last
  obtain ⟨last, w''⟩ := last
  cases outcome <;> cases last <;> simp only [hlast] <;> rfl

end Local

end Benchhand.Process
