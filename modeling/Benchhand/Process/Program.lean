/-
Benchhand.Process.Program — programs that call an operating system.

A program is a tree: it is done, or it makes a call and goes on with the
answer (`Prog`). A handler answers calls and moves the world, and `Prog.run`
runs a program to its end; a program has no infinite branch, so a run always
ends. `Async` adds exceptions in the standard way, with the `finally` rule of
JavaScript: an exception of the cleanup replaces the outcome of the body.
`Local` adds local variables that keep their values when the body throws, for
a cleanup that reads them. Nothing here knows what the calls are.
-/
import Mathlib.Logic.Basic

namespace Benchhand.Process

variable {C : Type} {R : C → Type} {W ε σ α β : Type}

/-! ## Programs -/

/-- A program with calls `c : C`, each answered by an `R c`. -/
inductive Prog (C : Type) (R : C → Type) (α : Type) where
  | done (a : α)
  | call (c : C) (next : R c → Prog C R α)

namespace Prog

def bind : Prog C R α → (α → Prog C R β) → Prog C R β
  | .done a, f => f a
  | .call c next, f => .call c fun r => (next r).bind f

instance : Monad (Prog C R) where
  pure := .done
  bind := .bind

/-- The cleanup runs whatever the body returns. -/
instance : MonadFinally (Prog C R) where
  tryFinally' body cleanup := do
    let a ← body
    let b ← cleanup (some a)
    pure (a, b)

end Prog

/-- What answers a call and moves the world. -/
abbrev Handler (C : Type) (R : C → Type) (W : Type) := (c : C) → W → R c × W

/-- A run from a world to its end. -/
def Prog.run (h : Handler C R W) : Prog C R α → W → α × W
  | .done a, w => (a, w)
  | .call c next, w => (next (h c w).1).run h (h c w).2

/-- One call of a program; a finished program stays as it is. -/
def Prog.step (h : Handler C R W) : Prog C R α → W → Prog C R α × W
  | .done a, w => (.done a, w)
  | .call c next, w => (next (h c w).1, (h c w).2)

/-- The value of a finished program. -/
def Prog.result? : Prog C R α → Option α
  | .done a => some a
  | .call _ _ => none

/-- Every call the program can make is allowed, whatever the answers were. -/
def Prog.Uses (allowed : C → Prop) : Prog C R α → Prop
  | .done _ => True
  | .call c next => allowed c ∧ ∀ r, (next r).Uses allowed

/-! ## Exceptions -/

/-- An async function: it calls, and resolves with an `α` or rejects with an
`ε`. -/
abbrev Async (C : Type) (R : C → Type) (ε : Type) := ExceptT ε (Prog C R)

/-- One call, its answer read as a value or an exception. -/
def Async.request (c : C) (answer : R c → Except ε α) : Async C R ε α :=
  ExceptT.mk (.call c fun r => .done (answer r))

/-- `p.catch((error) => { throw f(error) })`. -/
def Async.mapError (f : ε → ε) (p : Async C R ε α) : Async C R ε α :=
  tryCatch p fun e => throw (f e)

/-- `p.catch(() => {})`. -/
def Async.ignoreErrors (p : Async C R ε PUnit) : Async C R ε PUnit :=
  tryCatch p fun _ => pure ⟨⟩

/-- What a function ends with, from a world: `Q` if it resolves, `E` if it
rejects. -/
def Async.Wp (h : Handler C R W) (p : Async C R ε α) (Q : α → W → Prop) (E : ε → W → Prop)
    (w : W) : Prop :=
  match Prog.run h p.run w with
  | (.ok a, w') => Q a w'
  | (.error e, w') => E e w'

/-! ## Local variables -/

/-- The body of a `try` with local variables `σ`. -/
def Local (C : Type) (R : C → Type) (ε σ α : Type) := σ → Prog C R (Except ε α × σ)

namespace Local

def bind (p : Local C R ε σ α) (f : α → Local C R ε σ β) : Local C R ε σ β := fun s =>
  (p s).bind fun
    | (.ok a, s') => f a s'
    | (.error e, s') => .done (.error e, s')

instance : Monad (Local C R ε σ) where
  pure a := fun s => .done (.ok a, s)
  bind := .bind

def lift (p : Async C R ε α) : Local C R ε σ α := fun s => p.run.bind fun r => .done (r, s)

instance : MonadLift (Async C R ε) (Local C R ε σ) := ⟨lift⟩

/-- An assignment to the local variables. -/
def assign (f : σ → σ) : Local C R ε σ PUnit := fun s => .done (.ok ⟨⟩, f s)

/-- `try { body } finally { cleanup }`, the variables starting at `init`. -/
def tryFinally (init : σ) (body : Local C R ε σ α) (cleanup : σ → Async C R ε PUnit) :
    Async C R ε α :=
  ExceptT.mk ((body init).bind fun (outcome, s) => (cleanup s).run.bind fun
    | .ok _ => .done outcome
    | .error e => .done (.error e))

/-- `Async.Wp` for a body with local variables. -/
def Wp (h : Handler C R W) (p : Local C R ε σ α) (Q : α → σ → W → Prop)
    (E : ε → σ → W → Prop) (s : σ) (w : W) : Prop :=
  match Prog.run h (p s) w with
  | ((.ok a, s'), w') => Q a s' w'
  | ((.error e, s'), w') => E e s' w'

end Local

end Benchhand.Process
