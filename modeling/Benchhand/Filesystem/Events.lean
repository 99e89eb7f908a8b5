/-
Benchhand.Filesystem.Events — the calls of a run, one after the other.

A run that begins on a volume leaves the list of its calls, and the list says
how the volume came about: before each call the outside may have changed it,
and the call was carried out or failed (`Chained`). What every step of such a
list keeps, holds at its end (`Chained.invariant`).
-/
import Benchhand.Filesystem.Runs
import Benchhand.Posix.VolumeTheorems

namespace Benchhand.Filesystem

open Text Posix Process

/-! ## Lists of events -/

/-- One call, with what the outside did before it. -/
structure Took (turn : Turn) (v : Volume) (e : Event) : Prop where
  before : e.before = turn.foreign v
  outcome : (turn.fault e.call e.before = none ∧
      e.ok = (perform e.call e.before).1.toBool ∧ e.after = (perform e.call e.before).2) ∨
    ∃ fault, turn.fault e.call e.before = some fault ∧ e.ok = false ∧
      e.after = (fault.apply e.call e.before).2

/-- The events lead from one volume to another, the last event being first. -/
inductive Chained (outside : Nat → Turn) (v : Volume) : List Event → Volume → Prop
  | nil : Chained outside v [] v
  | cons {log : List Event} {u : Volume} {e : Event} (h : Chained outside v log u)
      (htook : Took (outside log.length) u e) : Chained outside v (e :: log) e.after

section
variable {outside : Nat → Turn} {v u : Volume} {log : List Event} {turn : Turn} {e : Event}

theorem took_answer (outside : Nat → Turn) (c : Call) (w : World) :
    ∃ e, (answer outside c w).2 = ⟨e.after, e :: w.log⟩ ∧ e.call = c ∧
      e.ok = (answer outside c w).1.toBool ∧ Took (outside w.log.length) w.vol e := by
  refine ⟨⟨c, (outside w.log.length).foreign w.vol, (answer outside c w).1.toBool,
    (answer outside c w).2.vol⟩, rfl, rfl, rfl, rfl, ?_⟩
  unfold answer
  dsimp only
  cases hfault : (outside w.log.length).fault c ((outside w.log.length).foreign w.vol) with
  | none => exact .inl ⟨rfl, rfl, rfl⟩
  | some fault =>
      refine .inr ⟨fault, rfl, ?_, rfl⟩
      cases c <;> rfl

/-- The calls of a run are chained. -/
theorem chained_run {α : Type} (p : Async α) (v : Volume) :
    Chained outside v (Prog.run (answer outside) p.run ⟨v, []⟩).2.log
      (Prog.run (answer outside) p.run ⟨v, []⟩).2.vol := by
  have hstep (c : Call) (w : World) (h : Chained outside v w.log w.vol) :
      Chained outside v (answer outside c w).2.log (answer outside c w).2.vol := by
    obtain ⟨e, hw, -, -, htook⟩ := took_answer outside c w
    rw [hw]
    exact .cons h htook
  exact Prog.run_invariant hstep p.run ⟨v, []⟩ .nil

/-- What the steps keep, holds at the end. -/
theorem Chained.invariant {I : List Event → Volume → Prop} (hnil : I [] v)
    (hstep : ∀ log u e, Chained outside v log u → Took (outside log.length) u e → I log u →
      I (e :: log) e.after) (h : Chained outside v log u) : I log u := by
  induction h with
  | nil => exact hnil
  | cons h htook ih => exact hstep _ _ _ h htook ih

theorem Chained.took (h : Chained outside v log u) :
    ∀ e ∈ log, ∃ n u', Took (outside n) u' e := by
  induction h with
  | nil => exact List.forall_mem_nil _
  | cons _ htook ih => exact List.forall_mem_cons.mpr ⟨⟨_, _, htook⟩, ih⟩

/-! ## One event -/

/-- A call that succeeds is carried out. -/
theorem Took.performed (h : Took turn v e) (hok : e.ok = true) :
    ∃ a, perform e.call e.before = (.ok a, e.after) := by
  obtain ⟨-, htrue, hafter⟩ | ⟨fault, -, hfalse, -⟩ := h.outcome
  · rw [hok] at htrue
    cases hperform : (perform e.call e.before).1 with
    | ok a => exact ⟨a, Prod.ext hperform hafter.symm⟩
    | error error =>
        rw [hperform] at htrue
        cases htrue
  · rw [hok] at hfalse
    cases hfalse

/-- A call that fails changes nothing, if it writes no content. -/
theorem Took.unchanged (h : Took turn v e) (hok : e.ok = false)
    (hwrite : ∀ handle content, e.call ≠ .writeFile handle content) : e.after = e.before := by
  obtain ⟨-, hfalse, hafter⟩ | ⟨fault, -, -, hafter⟩ := h.outcome
  · rw [hok] at hfalse
    cases hperform : (perform e.call e.before).1 with
    | ok a =>
        rw [hperform] at hfalse
        cases hfalse
    | error error => exact hafter.trans (perform_error hperform)
  · rw [hafter]
    cases hcall : e.call with
    | writeFile handle content => exact absurd hcall (hwrite handle content)
    | _ => rfl

/-- A call that only reads changes nothing. -/
theorem Took.readOnly (h : Took turn v e) (hread : ReadOnly e.call) : e.after = e.before := by
  obtain ⟨-, -, hafter⟩ | ⟨fault, -, -, hafter⟩ := h.outcome
  · rw [hafter]
    cases hcall : e.call <;> rw [hcall] at hread <;> first | rfl | exact absurd hread id
  · rw [hafter]
    cases hcall : e.call <;> rw [hcall] at hread <;> first | rfl | exact absurd hread id

/-- The outside leaves a place as it is. -/
def Spared (outside : Nat → Turn) (place : Path) : Prop :=
  ∀ n v, ((outside n).foreign v).node? place = v.node? place

theorem Took.spared {n : Nat} (h : Took (outside n) v e) {place : Path}
    (hspared : Spared outside place) : e.before.node? place = v.node? place := by
  rw [h.before]
  exact hspared n v

end

/-! ## Answers -/

/-- How a call fails. -/
def Failed (turn : Turn) (c : Call) (v : Volume) (error : Errno) : Prop :=
  (perform c v).1 = .error error ∨ ∃ fault, turn.fault c v = some fault ∧ fault.errno = error

section
variable {outside : Nat → Turn} {c : Call} {w : World}

theorem performed_answer {a : c.Returns} (h : (answer outside c w).1 = .ok a) :
    perform c ((outside w.log.length).foreign w.vol) = (.ok a, (answer outside c w).2.vol) := by
  unfold answer at h ⊢
  dsimp only at h ⊢
  cases hfault : (outside w.log.length).fault c ((outside w.log.length).foreign w.vol) with
  | none =>
      rw [hfault] at h
      exact Prod.ext h rfl
  | some fault =>
      rw [hfault] at h
      cases c <;> cases h

theorem failed_answer {error : Errno} (h : (answer outside c w).1 = .error error) :
    Failed (outside w.log.length) c ((outside w.log.length).foreign w.vol) error := by
  unfold answer at h
  dsimp only at h
  cases hfault : (outside w.log.length).fault c ((outside w.log.length).foreign w.vol) with
  | none =>
      rw [hfault] at h
      exact .inl h
  | some fault =>
      rw [hfault] at h
      refine .inr ⟨fault, hfault, ?_⟩
      cases c <;> exact Except.error.inj h

end

/-! ## Runs of programs -/

section
variable {α : Type} {outside : Nat → Turn} {w : World} {Q : α → World → Prop}
  {E : Thrown → World → Prop}

/-- A call, whatever comes of it. -/
theorem wp_call {c : Call} {Q : c.Returns → World → Prop}
    (hok : ∀ a e, perform c e.before = (.ok a, e.after) → e.call = c → e.ok = true →
      Took (outside w.log.length) w.vol e → Q a ⟨e.after, e :: w.log⟩)
    (herror : ∀ error e, Failed (outside w.log.length) c e.before error → e.call = c →
      e.ok = false → Took (outside w.log.length) w.vol e →
      E (.errno error) ⟨e.after, e :: w.log⟩) :
    Async.Wp (answer outside) (call c) Q E w := by
  obtain ⟨e, hw, hcall, heq, htook⟩ := took_answer outside c w
  refine Async.wp_request.mpr ?_
  cases hanswer : (answer outside c w).1 with
  | ok a =>
      rw [hanswer] at heq
      have hperform := performed_answer hanswer
      rw [hw, ← htook.before] at hperform
      rw [hw]
      exact hok a e hperform hcall heq htook
  | error error =>
      rw [hanswer] at heq
      have hfailed := failed_answer hanswer
      rw [← htook.before] at hfailed
      rw [hw]
      exact herror error e hfailed hcall heq htook

/-- What the allowed calls keep, holds whatever the function ends with. -/
theorem wp_uses {p : Async α} {allowed : Call → Prop} {I : World → Prop}
    (hp : Async.Uses allowed p)
    (hstep : ∀ c w e, allowed c → I w → e.call = c → Took (outside w.log.length) w.vol e →
      I ⟨e.after, e :: w.log⟩) (hI : I w) :
    Async.Wp (answer outside) p (fun _ => I) (fun _ => I) w := by
  have hcall (c : Call) (w : World) (hc : allowed c) (hI : I w) : I (answer outside c w).2 := by
    obtain ⟨e, hw, hcall, -, htook⟩ := took_answer outside c w
    rw [hw]
    exact hstep c w e hc hI hcall htook
  have hend := Prog.Uses.run_invariant hcall hp w hI
  rw [Async.wp_iff]
  split <;> exact hend

/-- What the allowed calls are like, holds of all events. -/
theorem wp_all {p : Async α} {allowed : Call → Prop} {P : Event → Prop}
    (hp : Async.Uses allowed p) (hP : ∀ e, allowed e.call → P e) (h : ∀ e ∈ w.log, P e) :
    Async.Wp (answer outside) p (fun _ w' => ∀ e ∈ w'.log, P e) (fun _ w' => ∀ e ∈ w'.log, P e)
      w := by
  refine wp_uses hp (fun c w e hc hI hcall _ => ?_) h
  exact List.forall_mem_cons.mpr ⟨hP e (hcall ▸ hc), hI⟩

theorem wp_failWhen {condition : Bool} {code : ErrorCode} {path : Option JsString}
    {message : JsString} {Q : PUnit → World → Prop} (hok : condition = false → Q ⟨⟩ w)
    (herror : condition = true → E (.filesystem { code, path, message }) w) :
    Async.Wp (answer outside) (failWhen condition code path message) Q E w := by
  cases condition with
  | false => exact hok rfl
  | true => exact herror rfl

theorem wp_ofExcept {r : Except FilesystemError α} (hok : ∀ a, r = .ok a → Q a w)
    (herror : ∀ e, r = .error e → E (.filesystem e) w) :
    Async.Wp (answer outside) (ofExcept r) Q E w := by
  cases r with
  | ok a => exact hok a rfl
  | error e => exact herror e rfl

end

end Benchhand.Filesystem
