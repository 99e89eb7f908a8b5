/-
Benchhand.Process.Traces — the calls a program makes and the answers it gets.

`Prog.Trace p trace a` says that `p`, answered as in the trace, ends with `a`.
Nothing is assumed of the answers. `Async.Returns` is a trace of a function that
resolves, with one rule for each way to build one.
-/
import Benchhand.Process.ProgramTheorems

namespace Benchhand.Process

variable {C : Type} {R : C → Type} {W ε α β : Type}

/-- Calls with their answers, in the order in which they are made. -/
abbrev Trace (C : Type) (R : C → Type) := List ((c : C) × R c)

inductive Prog.Trace : Prog C R α → Process.Trace C R → α → Prop
  | done (a : α) : Trace (.done a) [] a
  | call {c : C} {next : R c → Prog C R α} {r : R c} {trace : Process.Trace C R} {a : α}
      (h : Trace (next r) trace a) : Trace (.call c next) (⟨c, r⟩ :: trace) a

namespace Prog

theorem trace_done {a b : α} {trace : Process.Trace C R} :
    (Prog.done (R := R) a).Trace trace b ↔ trace = [] ∧ a = b := by
  constructor
  · intro h
    cases h
    exact ⟨rfl, rfl⟩
  · intro h
    obtain ⟨rfl, rfl⟩ := h
    exact .done _

theorem trace_bind {p : Prog C R α} {f : α → Prog C R β} {trace : Process.Trace C R} {b : β} :
    (p.bind f).Trace trace b ↔
      ∃ first rest a, trace = first ++ rest ∧ p.Trace first a ∧ (f a).Trace rest b := by
  constructor
  · induction p generalizing trace with
    | done a => exact fun h => ⟨[], trace, a, rfl, .done a, h⟩
    | call c next ih =>
        intro h
        cases h with
        | call h =>
            obtain ⟨first, rest, a, rfl, hfirst, hrest⟩ := ih _ h
            exact ⟨_ :: first, rest, a, rfl, .call hfirst, hrest⟩
  · intro h
    obtain ⟨first, rest, a, rfl, hfirst, hrest⟩ := h
    induction hfirst with
    | done a => exact hrest
    | call _ ih => exact .call (ih hrest)

/-- Every call of a trace is one the program can make. -/
theorem Trace.allowed {allowed : C → Prop} {p : Prog C R α} {trace : Process.Trace C R} {a : α}
    (h : p.Trace trace a) (hp : p.Uses allowed) : ∀ e ∈ trace, allowed e.1 := by
  induction h with
  | done => exact fun e he => absurd he List.not_mem_nil
  | call _ ih =>
      intro e he
      obtain rfl | he := List.mem_cons.mp he
      · exact hp.1
      · exact ih (hp.2 _) e he

end Prog

/-! ## Functions that resolve -/

namespace Async

/-- The function resolves with a value when it is answered as in the trace. -/
def Returns (p : Async C R ε α) (trace : Trace C R) (a : α) : Prop :=
  Prog.Trace p.run trace (.ok a)

variable {p : Async C R ε α} {f : α → Async C R ε β} {trace : Trace C R} {a : α} {b : β}

theorem returns_pure {a' : α} :
    Returns (pure a' : Async C R ε α) trace a ↔ trace = [] ∧ a' = a :=
  Prog.trace_done.trans (and_congr_right' (Except.ok.injEq a' a ▸ Iff.rfl))

theorem not_returns_throw {e : ε} : ¬ Returns (throw e : Async C R ε α) trace a := by
  intro h
  cases h

theorem returns_request {c : C} {answer : R c → Except ε α} :
    Returns (request c answer) trace a ↔ ∃ r, trace = [⟨c, r⟩] ∧ answer r = .ok a := by
  constructor
  · intro h
    cases h with
    | @call _ _ r _ _ h =>
        obtain ⟨rfl, hr⟩ := Prog.trace_done.mp h
        exact ⟨r, rfl, hr⟩
  · intro h
    obtain ⟨r, rfl, hr⟩ := h
    exact .call (Prog.trace_done.mpr ⟨rfl, hr⟩)

theorem returns_bind :
    Returns (p >>= f) trace b ↔
      ∃ first rest a, trace = first ++ rest ∧ Returns p first a ∧ Returns (f a) rest b := by
  refine Prog.trace_bind.trans ⟨fun h => ?_, fun h => ?_⟩
  · obtain ⟨first, rest, outcome, htrace, hfirst, hrest⟩ := h
    cases outcome with
    | ok a => exact ⟨first, rest, a, htrace, hfirst, hrest⟩
    | error e => exact absurd hrest not_returns_throw
  · obtain ⟨first, rest, a, htrace, hfirst, hrest⟩ := h
    exact ⟨first, rest, .ok a, htrace, hfirst, hrest⟩

/-- An exception that is thrown again does not resolve. -/
theorem returns_mapError {g : ε → ε} : Returns (mapError g p) trace a ↔ Returns p trace a := by
  refine Prog.trace_bind.trans ⟨fun h => ?_, fun h => ?_⟩
  · obtain ⟨first, rest, outcome, rfl, hfirst, hrest⟩ := h
    cases outcome with
    | ok a' =>
        obtain ⟨rfl, rfl⟩ := returns_pure.mp hrest
        rwa [List.append_nil]
    | error e => exact absurd hrest not_returns_throw
  · exact ⟨trace, [], .ok a, (List.append_nil _).symm, h, .done _⟩

theorem returns_map {g : α → β} :
    Returns (g <$> p) trace b ↔ ∃ a, Returns p trace a ∧ g a = b := by
  refine Prog.trace_bind.trans ⟨fun h => ?_, fun h => ?_⟩
  · obtain ⟨first, rest, outcome, rfl, hfirst, hrest⟩ := h
    cases outcome with
    | ok a =>
        obtain ⟨rfl, hb⟩ := Prog.trace_done.mp hrest
        rw [List.append_nil]
        exact ⟨a, hfirst, Except.ok.inj hb⟩
    | error e =>
        obtain ⟨-, hb⟩ := Prog.trace_done.mp hrest
        cases hb
  · obtain ⟨a, h, rfl⟩ := h
    exact ⟨trace, [], .ok a, (List.append_nil _).symm, h, .done _⟩

end Async

end Benchhand.Process
