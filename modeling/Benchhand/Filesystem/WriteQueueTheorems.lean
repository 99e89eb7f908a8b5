/-
Benchhand.Filesystem.WriteQueueTheorems — the queue is a mutex for every key.

`Inv` ties the map to the chain of the calls: the entry of a key is the tail of
its last call, and is there exactly until that call has ended; a call whose key
had no entry finds the operations of all earlier calls settled. One step keeps
it (`Inv.step`), and so an operation that starts finds those of all earlier
calls settled (`Inv.earlier_settled`). `writeQueue_mutex` puts together what
holds after every run.
-/
import Benchhand.Filesystem.WriteQueue
import Mathlib.Algebra.BigOperators.Group.Finset.Basic
import Mathlib.Algebra.Order.BigOperators.Group.Finset

namespace Benchhand.Filesystem.WriteQueue

open Text

variable {α ε : Type}

/-! ## What a step does -/

/-- The actions that are possible, and what they do. -/
inductive Step (s : WriteQueue α ε) : WriteAction α ε → WriteQueue α ε → Prop where
  | call (key : JsString) : Step s (.call key) (s.serializeWrite key)
  | caught {i : Nat} {call : WriteCall} {previous : Settlement α ε}
      (hcall : s.calls[i]? = some call) (hpending : s.caught i = none)
      (hsource : s.previousSettled call = some previous) :
      Step s (.react .caught i)
        { s with caught := Function.update s.caught i (some previous.caught) }
  | start {i : Nat} {call : WriteCall} {value : Option α} (hcall : s.calls[i]? = some call)
      (hpending : i ∉ s.started) (hresult : s.result i = none)
      (hsource : s.caught i = some (.fulfilled value)) :
      Step s (.react .start i) { s with started := s.started ++ [i] }
  | skip {i : Nat} {call : WriteCall} {e : ε} (hcall : s.calls[i]? = some call)
      (hpending : i ∉ s.started) (hresult : s.result i = none)
      (hsource : s.caught i = some (.rejected e)) :
      Step s (.react .start i)
        { s with result := Function.update s.result i (some (.rejected e)) }
  | settle {i : Nat} {outcome : Settlement α ε} (hrunning : s.Running i) :
      Step s (.settle i outcome)
        { s with operation := Function.update s.operation i (some outcome) }
  | adopt {i : Nat} {call : WriteCall} {outcome : Settlement α ε}
      (hcall : s.calls[i]? = some call) (hpending : s.result i = none)
      (hsource : s.operation i = some outcome) :
      Step s (.react .adopt i) { s with result := Function.update s.result i (some outcome) }
  | tail {i : Nat} {call : WriteCall} {outcome : Settlement α ε}
      (hcall : s.calls[i]? = some call) (hpending : s.tail i = none)
      (hsource : s.result i = some outcome) :
      Step s (.react .tail i)
        { s with tail := Function.update s.tail i (some (.fulfilled none)) }
  | owner {i : Nat} {call : WriteCall} {outcome : Settlement α ε}
      (hcall : s.calls[i]? = some call) (hpending : s.caller i = none)
      (hsource : s.result i = some outcome) :
      Step s (.react .owner i)
        { s with
          writeTails :=
            if s.writeTails call.key = some i then Function.update s.writeTails call.key none
            else s.writeTails
          caller := Function.update s.caller i (some outcome) }

/-- A job that waits for a promise, and runs when another has settled. -/
theorem guarded_iff {β γ δ : Type} {waiting : Option β} {source : Option γ} {f : γ → δ} {d : δ} :
    (if waiting.isSome then none else source.map f) = some d ↔
      waiting = none ∧ ∃ outcome, source = some outcome ∧ f outcome = d := by
  cases waiting with
  | none => simp [Option.map_eq_some_iff]
  | some b => simp

/-- The job that starts the operation. -/
theorem start_iff {s s' : WriteQueue α ε} {call : WriteCall} {i : Nat} :
    s.react call i .start = some s' ↔ i ∉ s.started ∧ s.result i = none ∧
      ∃ source, s.caught i = some source ∧
        (match source with
          | .fulfilled _ => { s with started := s.started ++ [i] }
          | .rejected e => { s with result := Function.update s.result i (some (.rejected e)) }) =
            s' := by
  rw [react]
  by_cases hstarted : i ∈ s.started
  · have helem : s.started.elem i = true := List.elem_iff.mpr hstarted
    rw [helem, Bool.true_or, if_pos rfl]
    exact iff_of_false (Option.some_ne_none s').symm fun h => h.1 hstarted
  · have helem : s.started.elem i = false := by
      rwa [← Bool.not_eq_true, List.elem_iff]
    rw [helem, Bool.false_or]
    exact guarded_iff.trans (and_iff_right hstarted).symm

theorem step_iff {s s' : WriteQueue α ε} {a : WriteAction α ε} :
    s.step a = some s' ↔ Step s a s' := by
  constructor
  · intro h
    cases a with
    | call key =>
        obtain rfl := Option.some.inj h
        exact .call key
    | react job i =>
        obtain ⟨call, hcall, hreact⟩ := Option.bind_eq_some_iff.mp h
        cases job with
        | caught =>
            obtain ⟨hpending, previous, hsource, rfl⟩ := guarded_iff.mp hreact
            exact .caught hcall hpending hsource
        | start =>
            obtain ⟨hpending, hresult, source, hsource, rfl⟩ := start_iff.mp hreact
            cases source with
            | fulfilled value => exact .start hcall hpending hresult hsource
            | rejected e => exact .skip hcall hpending hresult hsource
        | adopt =>
            obtain ⟨hpending, outcome, hsource, rfl⟩ := guarded_iff.mp hreact
            exact .adopt hcall hpending hsource
        | tail =>
            obtain ⟨hpending, outcome, hsource, rfl⟩ := guarded_iff.mp hreact
            exact .tail hcall hpending hsource
        | owner =>
            obtain ⟨hpending, outcome, hsource, rfl⟩ := guarded_iff.mp hreact
            exact .owner hcall hpending hsource
    | settle i outcome =>
        rw [step] at h
        split at h
        · rename_i hguard
          rw [Bool.and_eq_true, List.elem_iff, Option.isNone_iff_eq_none] at hguard
          obtain rfl := Option.some.inj h
          exact .settle hguard
        · cases h
  · intro h
    have hreact {i : Nat} {call : WriteCall} (job : Job) (hcall : s.calls[i]? = some call) :
        s.step (.react job i) = s.react call i job := by
      rw [step, hcall]
      rfl
    cases h with
    | call key => rfl
    | caught hcall hpending hsource =>
        exact (hreact .caught hcall).trans (guarded_iff.mpr ⟨hpending, _, hsource, rfl⟩)
    | start hcall hpending hresult hsource =>
        exact (hreact .start hcall).trans (start_iff.mpr ⟨hpending, hresult, _, hsource, rfl⟩)
    | skip hcall hpending hresult hsource =>
        exact (hreact .start hcall).trans (start_iff.mpr ⟨hpending, hresult, _, hsource, rfl⟩)
    | settle hrunning =>
        rw [step, if_pos]
        rw [Bool.and_eq_true, List.elem_iff, Option.isNone_iff_eq_none]
        exact hrunning
    | adopt hcall hpending hsource =>
        exact (hreact .adopt hcall).trans (guarded_iff.mpr ⟨hpending, _, hsource, rfl⟩)
    | tail hcall hpending hsource =>
        exact (hreact .tail hcall).trans (guarded_iff.mpr ⟨hpending, _, hsource, rfl⟩)
    | owner hcall hpending hsource =>
        exact (hreact .owner hcall).trans (guarded_iff.mpr ⟨hpending, _, hsource, rfl⟩)

/-! ## The invariant -/

variable (s : WriteQueue α ε)

def SameKey (i j : Nat) : Prop :=
  ∃ call call', s.calls[i]? = some call ∧ s.calls[j]? = some call' ∧ call.key = call'.key

/-- The last call with its key. -/
def Last (i : Nat) (key : JsString) : Prop :=
  (∃ call, s.calls[i]? = some call ∧ call.key = key) ∧
    ∀ j call, i < j → s.calls[j]? = some call → call.key ≠ key

/-- Where a call is chained: behind the last call with its key before it, or
nowhere if the operations of all those have settled. -/
structure Chained (i : Nat) (call : WriteCall) : Prop where
  behind : ∀ j, call.previous = some j → j < i ∧
    (∃ before, s.calls[j]? = some before ∧ before.key = call.key) ∧
    ∀ m between, j < m → m < i → s.calls[m]? = some between → between.key ≠ call.key
  alone : call.previous = none → ∀ j before, j < i → s.calls[j]? = some before →
    before.key = call.key → s.result j ≠ none

structure Inv : Prop where
  chained : ∀ i call, s.calls[i]? = some call → s.Chained i call
  caught : ∀ i outcome, s.caught i = some outcome → (∃ value, outcome = .fulfilled value) ∧
    ∃ call, s.calls[i]? = some call ∧ s.previousSettled call ≠ none
  started : ∀ i ∈ s.started, s.caught i ≠ none
  operation : ∀ i, s.operation i ≠ none → i ∈ s.started
  result : ∀ i outcome, s.result i = some outcome → s.operation i = some outcome
  tail : ∀ i outcome, s.tail i = some outcome →
    s.result i ≠ none ∧ ∃ value, outcome = .fulfilled value
  caller : ∀ i outcome, s.caller i = some outcome → s.result i = some outcome
  entry : ∀ key i, s.writeTails key = some i → s.Last i key ∧ s.caller i = none
  noEntry : ∀ key i, s.writeTails key = none → s.Last i key → s.caller i ≠ none
  nodup : s.started.Nodup
  ordered : s.started.Pairwise fun i j => s.SameKey i j → i < j

variable {s}

theorem Inv.init : Inv (init : WriteQueue α ε) where
  chained _ _ h := absurd h (by simp [WriteQueue.init])
  caught _ _ h := absurd h (by simp [WriteQueue.init])
  started _ h := absurd h List.not_mem_nil
  operation _ h := absurd rfl h
  result _ _ h := absurd h (by simp [WriteQueue.init])
  tail _ _ h := absurd h (by simp [WriteQueue.init])
  caller _ _ h := absurd h (by simp [WriteQueue.init])
  entry _ _ h := absurd h (by simp [WriteQueue.init])
  noEntry _ _ _ h := by
    obtain ⟨⟨call, hcall, -⟩, -⟩ := h
    exact absurd hcall (by simp [WriteQueue.init])
  nodup := List.nodup_nil
  ordered := List.Pairwise.nil

/-! ## What the invariant says -/

section
variable (h : Inv s)
include h

theorem Inv.operation_of_result {i : Nat} (hi : s.result i ≠ none) : s.operation i ≠ none := by
  obtain ⟨outcome, houtcome⟩ := Option.ne_none_iff_exists'.mp hi
  rw [h.result i outcome houtcome]
  exact Option.some_ne_none outcome

theorem Inv.caught_of_result {i : Nat} (hi : s.result i ≠ none) : s.caught i ≠ none :=
  h.started i (h.operation i (h.operation_of_result hi))

theorem Inv.result_of_caller {i : Nat} (hi : s.caller i ≠ none) : s.result i ≠ none := by
  obtain ⟨outcome, houtcome⟩ := Option.ne_none_iff_exists'.mp hi
  rw [h.caller i outcome houtcome]
  exact Option.some_ne_none outcome

theorem Inv.result_of_tail {i : Nat} (hi : s.tail i ≠ none) : s.result i ≠ none := by
  obtain ⟨outcome, houtcome⟩ := Option.ne_none_iff_exists'.mp hi
  exact (h.tail i outcome houtcome).1

/-- What is called has a number. -/
theorem Inv.lt_of_caught {i : Nat} (hi : s.caught i ≠ none) : i < s.calls.length := by
  obtain ⟨outcome, houtcome⟩ := Option.ne_none_iff_exists'.mp hi
  obtain ⟨-, call, hcall, -⟩ := h.caught i outcome houtcome
  exact (List.getElem?_eq_some_iff.mp hcall).1

/-- When the promise behind a call has settled, so have the operations of all
earlier calls with its key. -/
theorem Inv.earlier_settled : ∀ {i : Nat} {call : WriteCall}, s.calls[i]? = some call →
    s.previousSettled call ≠ none → ∀ j before, j < i → s.calls[j]? = some before →
      before.key = call.key → s.result j ≠ none := by
  intro i
  induction i using Nat.strong_induction_on with
  | _ i ih =>
      intro call hcall hprevious j before hj hbefore hkey
      have hchained := h.chained i call hcall
      cases hprev : call.previous with
      | none => exact hchained.alone hprev j before hj hbefore hkey
      | some m =>
          obtain ⟨hm, ⟨last, hlast, hlastKey⟩, hbetween⟩ := hchained.behind m hprev
          have htail : s.tail m ≠ none := by
            rwa [previousSettled, hprev] at hprevious
          have hresult := h.result_of_tail htail
          rcases Nat.lt_trichotomy j m with hlt | rfl | hgt
          · -- the call that the call waits for has waited itself
            obtain ⟨outcome, houtcome⟩ :=
              Option.ne_none_iff_exists'.mp (h.caught_of_result hresult)
            obtain ⟨-, last', hlast', hsettled⟩ := h.caught m outcome houtcome
            obtain rfl := Option.some.inj (hlast.symm.trans hlast')
            exact ih m hm hlast hsettled j before hlt hbefore (hkey.trans hlastKey.symm)
          · exact hresult
          · exact absurd hkey (hbetween j before hgt hj hbefore)

/-- An operation that has started finds those of all earlier calls settled. -/
theorem Inv.earlier_of_caught {i j : Nat} {call before : WriteCall} (hi : s.caught i ≠ none)
    (hcall : s.calls[i]? = some call) (hj : j < i) (hbefore : s.calls[j]? = some before)
    (hkey : before.key = call.key) : s.result j ≠ none := by
  obtain ⟨outcome, houtcome⟩ := Option.ne_none_iff_exists'.mp hi
  obtain ⟨-, call', hcall', hsettled⟩ := h.caught i outcome houtcome
  obtain rfl := Option.some.inj (hcall.symm.trans hcall')
  exact h.earlier_settled hcall hsettled j before hj hbefore hkey

end

/-! ## One step -/

theorem update_ne_none {β : Type} {f : Nat → Option β} {i j : Nat} {b : β} (h : f j ≠ none) :
    Function.update f i (some b) j ≠ none := by
  rw [Function.update_apply]
  split
  · exact Option.some_ne_none b
  · exact h

theorem update_eq_some {β : Type} {f : Nat → Option β} {i j : Nat} {b b' : β}
    (h : Function.update f i (some b) j = some b') : j = i ∧ b = b' ∨ j ≠ i ∧ f j = some b' := by
  rw [Function.update_apply] at h
  split at h
  · exact .inl ⟨‹_›, Option.some.inj h⟩
  · exact .inr ⟨‹_›, h⟩

theorem Last.unique {i j : Nat} {key : JsString} (hi : s.Last i key) (hj : s.Last j key) :
    i = j := by
  obtain ⟨⟨call, hcall, hkey⟩, hlater⟩ := hi
  obtain ⟨⟨call', hcall', hkey'⟩, hlater'⟩ := hj
  rcases Nat.lt_trichotomy i j with hlt | heq | hgt
  · exact absurd hkey' (hlater j call' hlt hcall')
  · exact heq
  · exact absurd hkey (hlater' i call hgt hcall)

/-- A key that has been called has a last call. -/
theorem exists_last {key : JsString} : ∀ {i : Nat} {call : WriteCall}, s.calls[i]? = some call →
    call.key = key → ∃ j, i ≤ j ∧ s.Last j key := by
  intro i
  induction hn : s.calls.length - i using Nat.strong_induction_on generalizing i with
  | _ n ih =>
      intro call hcall hkey
      by_cases hlater : ∃ j call', i < j ∧ s.calls[j]? = some call' ∧ call'.key = key
      · obtain ⟨j, call', hlt, hcall', hkey'⟩ := hlater
        have hj := (List.getElem?_eq_some_iff.mp hcall').1
        obtain ⟨m, hm, hlast⟩ := ih _ (by omega) rfl hcall' hkey'
        exact ⟨m, by omega, hlast⟩
      · refine ⟨i, Nat.le_refl i, ⟨call, hcall, hkey⟩, fun j call' hlt hcall' hkey' => ?_⟩
        exact hlater ⟨j, call', hlt, hcall', hkey'⟩

section
variable (key : JsString)

theorem calls_serializeWrite_lt {j : Nat} (hj : j < s.calls.length) :
    (s.serializeWrite key).calls[j]? = s.calls[j]? := List.getElem?_append_left hj

theorem calls_serializeWrite {j : Nat} {call : WriteCall}
    (h : (s.serializeWrite key).calls[j]? = some call) :
    s.calls[j]? = some call ∨ j = s.calls.length ∧ call = ⟨key, s.writeTails key⟩ := by
  obtain hlt | heq | hgt := Nat.lt_trichotomy j s.calls.length
  · rw [calls_serializeWrite_lt key hlt] at h
    exact .inl h
  · subst heq
    rw [serializeWrite, List.getElem?_concat_length] at h
    exact .inr ⟨rfl, (Option.some.inj h).symm⟩
  · rw [serializeWrite, List.getElem?_eq_none (by simp; omega)] at h
    cases h

theorem calls_serializeWrite_of {j : Nat} {call : WriteCall} (h : s.calls[j]? = some call) :
    (s.serializeWrite key).calls[j]? = some call := by
  rwa [calls_serializeWrite_lt key (List.getElem?_eq_some_iff.mp h).1]

/-- A call does not change the last call of another key. -/
theorem last_serializeWrite {i : Nat} {key' : JsString} (hne : key' ≠ key) :
    (s.serializeWrite key).Last i key' ↔ s.Last i key' := by
  constructor
  · rintro ⟨⟨call, hcall, rfl⟩, hlater⟩
    obtain hcall | ⟨-, rfl⟩ := calls_serializeWrite key hcall
    · exact ⟨⟨call, hcall, rfl⟩, fun j call' hlt hcall' =>
        hlater j call' hlt (calls_serializeWrite_of key hcall')⟩
    · exact absurd rfl hne
  · rintro ⟨⟨call, hcall, hkey⟩, hlater⟩
    refine ⟨⟨call, calls_serializeWrite_of key hcall, hkey⟩, fun j call' hlt hcall' => ?_⟩
    obtain hcall' | ⟨-, rfl⟩ := calls_serializeWrite key hcall'
    · exact hlater j call' hlt hcall'
    · exact hne.symm

theorem last_new : (s.serializeWrite key).Last s.calls.length key := by
  refine ⟨⟨⟨key, s.writeTails key⟩, List.getElem?_concat_length, rfl⟩, ?_⟩
  intro j call hlt hcall
  have hj := (List.getElem?_eq_some_iff.mp hcall).1
  rw [serializeWrite, List.length_append, List.length_singleton] at hj
  omega

/-- A new call is chained behind the last one with its key, or that one has
ended and with it all before it. -/
theorem Inv.chained_new (h : Inv s) :
    (s.serializeWrite key).Chained s.calls.length ⟨key, s.writeTails key⟩ where
  behind j hj := by
    obtain ⟨⟨⟨before, hbefore, hkey⟩, hlater⟩, -⟩ := h.entry key j hj
    have hlt := (List.getElem?_eq_some_iff.mp hbefore).1
    refine ⟨hlt, ⟨before, calls_serializeWrite_of key hbefore, hkey⟩, ?_⟩
    intro m between hm hmn hbetween
    rw [calls_serializeWrite_lt key hmn] at hbetween
    exact hlater m between hm hbetween
  alone hnone j before hj hbefore hkey := by
    rw [calls_serializeWrite_lt key hj] at hbefore
    obtain ⟨last, hle, hlast⟩ := exists_last hbefore hkey
    have hresult := h.result_of_caller (h.noEntry key last hnone hlast)
    obtain ⟨⟨call, hcall, hkey'⟩, -⟩ := hlast
    obtain hlt | rfl := Nat.lt_or_eq_of_le hle
    · exact h.earlier_of_caught (h.caught_of_result hresult) hcall hlt hbefore
        (hkey.trans hkey'.symm)
    · exact hresult

theorem Inv.call (h : Inv s) : Inv (s.serializeWrite key) where
  chained i call hcall := by
    obtain hcall | ⟨rfl, rfl⟩ := calls_serializeWrite key hcall
    · have hlt := (List.getElem?_eq_some_iff.mp hcall).1
      obtain ⟨hbehind, halone⟩ := h.chained i call hcall
      refine ⟨fun j hj => ?_, fun hnone j before hj hbefore => ?_⟩
      · obtain ⟨hji, ⟨before, hbefore, hkey⟩, hbetween⟩ := hbehind j hj
        refine ⟨hji, ⟨before, calls_serializeWrite_of key hbefore, hkey⟩, ?_⟩
        intro m between hm hmi hcall'
        rw [calls_serializeWrite_lt key (by omega)] at hcall'
        exact hbetween m between hm hmi hcall'
      · rw [calls_serializeWrite_lt key (by omega)] at hbefore
        exact halone hnone j before hj hbefore
    · exact h.chained_new key
  caught i outcome hcaught := by
    obtain ⟨hvalue, call, hcall, hprevious⟩ := h.caught i outcome hcaught
    exact ⟨hvalue, call, calls_serializeWrite_of key hcall, hprevious⟩
  started := h.started
  operation := h.operation
  result := h.result
  tail := h.tail
  caller := h.caller
  entry key' i hentry := by
    change Function.update s.writeTails key _ key' = some i at hentry
    by_cases hkey : key' = key
    · subst hkey
      rw [Function.update_self] at hentry
      obtain rfl := Option.some.inj hentry
      refine ⟨last_new key', Classical.byContradiction fun hcaller => ?_⟩
      have hlt := h.lt_of_caught (h.caught_of_result (h.result_of_caller hcaller))
      omega
    · rw [Function.update_of_ne hkey] at hentry
      exact ⟨(last_serializeWrite key hkey).mpr (h.entry key' i hentry).1,
        (h.entry key' i hentry).2⟩
  noEntry key' i hentry hlast := by
    change Function.update s.writeTails key _ key' = none at hentry
    by_cases hkey : key' = key
    · subst hkey
      rw [Function.update_self] at hentry
      cases hentry
    · rw [Function.update_of_ne hkey] at hentry
      exact h.noEntry key' i hentry ((last_serializeWrite key hkey).mp hlast)
  nodup := h.nodup
  ordered := by
    refine h.ordered.imp_of_mem fun {i j} hi hj hold => ?_
    rintro ⟨call, call', hcall, hcall', hkey⟩
    rw [calls_serializeWrite_lt key (h.lt_of_caught (h.started i hi))] at hcall
    rw [calls_serializeWrite_lt key (h.lt_of_caught (h.started j hj))] at hcall'
    exact hold ⟨call, call', hcall, hcall', hkey⟩

end

/-- A step that keeps the calls and what has settled keeps the chain. -/
theorem Chained.mono {s' : WriteQueue α ε} {i : Nat} {call : WriteCall} (h : s.Chained i call)
    (hcalls : s'.calls = s.calls) (hresult : ∀ j, s.result j ≠ none → s'.result j ≠ none) :
    s'.Chained i call where
  behind j hj := by
    rw [hcalls]
    exact h.behind j hj
  alone hnone j before hj hbefore hkey := by
    rw [hcalls] at hbefore
    exact hresult j (h.alone hnone j before hj hbefore hkey)

/-- The end of a call deletes the entry that is its own. -/
theorem Inv.owner {i : Nat} {call : WriteCall} {outcome : Settlement α ε} (h : Inv s)
    (hcall : s.calls[i]? = some call) (hsource : s.result i = some outcome) :
    Inv { s with
      writeTails :=
        if s.writeTails call.key = some i then Function.update s.writeTails call.key none
        else s.writeTails
      caller := Function.update s.caller i (some outcome) } where
  chained j call' hcall' := (h.chained j call' hcall').mono rfl fun _ hj => hj
  caught := h.caught
  started := h.started
  operation := h.operation
  result := h.result
  tail := h.tail
  caller j outcome' hcaller := by
    obtain ⟨rfl, rfl⟩ | ⟨-, hold⟩ := update_eq_some hcaller
    · exact hsource
    · exact h.caller j outcome' hold
  entry key j hentry := by
    have hold : s.writeTails key = some j ∧ j ≠ i := by
      -- an entry of the call itself stands under its own key
      have hself : s.writeTails key = some i → key = call.key := by
        intro hkey
        obtain ⟨⟨call', hcall', rfl⟩, -⟩ := (h.entry key i hkey).1
        rw [Option.some.inj (hcall.symm.trans hcall')]
      dsimp only at hentry
      split at hentry
      · by_cases hkey : key = call.key
        · rw [hkey, Function.update_self] at hentry
          cases hentry
        · rw [Function.update_of_ne hkey] at hentry
          exact ⟨hentry, fun heq => hkey (hself (heq ▸ hentry))⟩
      · rename_i hnot
        exact ⟨hentry, fun heq => hnot (hself (heq ▸ hentry) ▸ heq ▸ hentry)⟩
    obtain ⟨hlast, hcaller⟩ := h.entry key j hold.1
    refine ⟨hlast, ?_⟩
    change Function.update s.caller i _ j = none
    rw [Function.update_of_ne hold.2, hcaller]
  noEntry key j hentry hlast := by
    have hlast : s.Last j key := hlast
    dsimp only at hentry
    by_cases hown : s.writeTails call.key = some i ∧ key = call.key
    · obtain ⟨hentry', rfl⟩ := hown
      rw [(h.entry call.key i hentry').1.unique hlast]
      change Function.update s.caller j _ j ≠ none
      rw [Function.update_self]
      exact Option.some_ne_none _
    · refine update_ne_none (h.noEntry key j ?_ hlast)
      split at hentry
      · rename_i hentry'
        rwa [Function.update_of_ne fun hkey => hown ⟨hentry', hkey⟩] at hentry
      · exact hentry
  nodup := h.nodup
  ordered := h.ordered

section
variable {i : Nat} {call : WriteCall} {outcome : Settlement α ε} (h : Inv s)
include h

theorem Inv.step_caught {previous : Settlement α ε} (hcall : s.calls[i]? = some call)
    (hsource : s.previousSettled call = some previous) :
    Inv { s with caught := Function.update s.caught i (some previous.caught) } where
  chained j call' hcall' := (h.chained j call' hcall').mono rfl fun _ hj => hj
  caught j outcome hcaught := by
    obtain ⟨rfl, rfl⟩ | ⟨-, hold⟩ := update_eq_some hcaught
    · refine ⟨?_, call, hcall, fun hnone => Option.some_ne_none previous (hsource ▸ hnone)⟩
      cases previous with
      | fulfilled value => exact ⟨value, rfl⟩
      | rejected e => exact ⟨none, rfl⟩
    · exact h.caught j outcome hold
  started j hj := update_ne_none (h.started j hj)
  operation := h.operation
  result := h.result
  tail := h.tail
  caller := h.caller
  entry := h.entry
  noEntry := h.noEntry
  nodup := h.nodup
  ordered := h.ordered

theorem Inv.step_start {value : Option α} (hpending : i ∉ s.started)
    (hsource : s.caught i = some (.fulfilled value)) :
    Inv { s with started := s.started ++ [i] } where
  chained j call' hcall' := (h.chained j call' hcall').mono rfl fun _ hj => hj
  caught := h.caught
  started j hj := by
    obtain hj | hj := List.mem_append.mp hj
    · exact h.started j hj
    · rw [List.mem_singleton.mp hj]
      exact fun hnone => Option.some_ne_none _ (hsource ▸ hnone)
  operation j hj := List.mem_append_left _ (h.operation j hj)
  result := h.result
  tail := h.tail
  caller := h.caller
  entry := h.entry
  noEntry := h.noEntry
  nodup := List.nodup_append.mpr ⟨h.nodup, List.nodup_singleton i, fun a ha b hb heq =>
    hpending (List.mem_singleton.mp hb ▸ heq ▸ ha)⟩
  ordered := by
    refine List.pairwise_append.mpr ⟨h.ordered, List.pairwise_singleton _ _, ?_⟩
    rintro j hj m hm ⟨before, call, hbefore, hcall, hkey⟩
    obtain rfl := List.mem_singleton.mp hm
    rcases Nat.lt_trichotomy j m with hlt | rfl | hgt
    · exact hlt
    · exact absurd hj hpending
    · -- a later call has started only when this one had settled
      have hresult := h.earlier_of_caught (h.started j hj) hbefore hgt hcall hkey.symm
      exact absurd (h.operation m (h.operation_of_result hresult)) hpending

theorem Inv.step_settle (hrunning : s.Running i) :
    Inv { s with operation := Function.update s.operation i (some outcome) } where
  chained j call' hcall' := (h.chained j call' hcall').mono rfl fun _ hj => hj
  caught := h.caught
  started := h.started
  operation j hj := by
    by_cases heq : j = i
    · exact heq ▸ hrunning.1
    · exact h.operation j fun hnone => hj ((Function.update_of_ne heq _ _).trans hnone)
  result j outcome' hresult := by
    have hold := h.result j outcome' hresult
    have hne : j ≠ i := fun heq => Option.some_ne_none outcome' (hold ▸ heq ▸ hrunning.2)
    change Function.update s.operation i _ j = _
    rw [Function.update_of_ne hne, hold]
  tail := h.tail
  caller := h.caller
  entry := h.entry
  noEntry := h.noEntry
  nodup := h.nodup
  ordered := h.ordered

theorem Inv.step_adopt (hpending : s.result i = none) (hsource : s.operation i = some outcome) :
    Inv { s with result := Function.update s.result i (some outcome) } where
  chained j call' hcall' := (h.chained j call' hcall').mono rfl fun _ hj => update_ne_none hj
  caught := h.caught
  started := h.started
  operation := h.operation
  result j outcome' hresult := by
    obtain ⟨rfl, rfl⟩ | ⟨-, hold⟩ := update_eq_some hresult
    · exact hsource
    · exact h.result j outcome' hold
  tail j outcome' htail := ⟨update_ne_none (h.tail j outcome' htail).1, (h.tail j outcome' htail).2⟩
  caller j outcome' hcaller := by
    have hold := h.caller j outcome' hcaller
    have hne : j ≠ i := fun heq => Option.some_ne_none outcome' (hold ▸ heq ▸ hpending)
    change Function.update s.result i _ j = _
    rw [Function.update_of_ne hne, hold]
  entry := h.entry
  noEntry := h.noEntry
  nodup := h.nodup
  ordered := h.ordered

theorem Inv.step_tail (hsource : s.result i = some outcome) :
    Inv { s with tail := Function.update s.tail i (some (.fulfilled none)) } where
  chained j call' hcall' := (h.chained j call' hcall').mono rfl fun _ hj => hj
  caught j outcome' hcaught := by
    obtain ⟨hvalue, call', hcall', hprevious⟩ := h.caught j outcome' hcaught
    refine ⟨hvalue, call', hcall', ?_⟩
    unfold previousSettled at hprevious ⊢
    split at hprevious
    · exact Option.some_ne_none _
    · exact update_ne_none hprevious
  started := h.started
  operation := h.operation
  result := h.result
  tail j outcome' htail := by
    obtain ⟨rfl, rfl⟩ | ⟨-, hold⟩ := update_eq_some htail
    · exact ⟨fun hnone => Option.some_ne_none outcome (hsource ▸ hnone), none, rfl⟩
    · exact h.tail j outcome' hold
  caller := h.caller
  entry := h.entry
  noEntry := h.noEntry
  nodup := h.nodup
  ordered := h.ordered

end

theorem Inv.step {s' : WriteQueue α ε} {a : WriteAction α ε} (h : Inv s) (hstep : Step s a s') :
    Inv s' := by
  cases hstep with
  | call key => exact h.call key
  | caught hcall hpending hsource => exact h.step_caught hcall hsource
  | start hcall hpending hresult hsource => exact h.step_start hpending hsource
  | skip hcall hpending hresult hsource =>
      obtain ⟨⟨value, hvalue⟩, -⟩ := h.caught _ _ hsource
      cases hvalue
  | settle hrunning => exact h.step_settle hrunning
  | adopt hcall hpending hsource => exact h.step_adopt hpending hsource
  | tail hcall hpending hsource => exact h.step_tail hsource
  | owner hcall hpending hsource => exact h.owner hcall hsource

theorem Inv.run (actions : List (WriteAction α ε)) : Inv (run actions) := by
  suffices hfrom : ∀ (actions : List (WriteAction α ε)) (s : WriteQueue α ε), Inv s →
      Inv (actions.foldl (fun s a => (s.step a).getD s) s) from hfrom actions _ Inv.init
  intro actions
  induction actions with
  | nil => exact fun _ h => h
  | cons a actions ih =>
      intro s h
      refine ih ((s.step a).getD s) ?_
      cases hstep : s.step a with
      | none => exact h
      | some s' => exact h.step (step_iff.mp hstep)

/-! ## Progress -/

/-- Something that is registered on a promise of the call can run. -/
def Ready (s : WriteQueue α ε) (i : Nat) : Prop := ∃ job s', s.step (.react job i) = some s'

theorem ready_of_step {s' : WriteQueue α ε} {job : Job} {i : Nat}
    (h : Step s (.react job i) s') : s.Ready i := ⟨job, s', step_iff.mpr h⟩

/-- A call that has not ended waits for an operation that is running, of itself
or of an earlier call with its key, or something can run that brings it on. -/
theorem Inv.progress (h : Inv s) : ∀ {i : Nat} {call : WriteCall}, s.calls[i]? = some call →
    s.caller i = none → ∃ j, j ≤ i ∧ s.SameKey j i ∧ (s.Running j ∨ s.Ready j) := by
  intro i
  induction i using Nat.strong_induction_on with
  | _ i ih =>
      intro call hcall hcaller
      have hself : s.SameKey i i := ⟨call, call, hcall, hcall, rfl⟩
      cases hcaught : s.caught i with
      | none =>
          cases hprevious : s.previousSettled call with
          | some previous =>
              exact ⟨i, Nat.le_refl i, hself, .inr (ready_of_step (.caught hcall hcaught hprevious))⟩
          | none =>
              cases hprev : call.previous with
              | none =>
                  rw [previousSettled, hprev] at hprevious
                  cases hprevious
              | some j =>
                  rw [previousSettled, hprev] at hprevious
                  obtain ⟨hj, ⟨before, hbefore, hkey⟩, -⟩ := (h.chained i call hcall).behind j hprev
                  cases hresult : s.result j with
                  | some outcome =>
                      exact ⟨j, hj.le, ⟨before, call, hbefore, hcall, hkey⟩,
                        .inr (ready_of_step (.tail hbefore hprevious hresult))⟩
                  | none =>
                      have hpending : s.caller j = none := Classical.byContradiction fun hnot =>
                        h.result_of_caller hnot hresult
                      obtain ⟨m, hm, ⟨first, before', hfirst, hbefore', hsame⟩, hmoves⟩ :=
                        ih j hj hbefore hpending
                      obtain rfl := Option.some.inj (hbefore.symm.trans hbefore')
                      exact ⟨m, hm.trans hj.le, ⟨first, call, hfirst, hcall, hsame.trans hkey⟩,
                        hmoves⟩
      | some source =>
          obtain ⟨⟨value, rfl⟩, -⟩ := h.caught i source hcaught
          refine ⟨i, Nat.le_refl i, hself, ?_⟩
          by_cases hstarted : i ∈ s.started
          · cases hoperation : s.operation i with
            | none => exact .inl ⟨hstarted, hoperation⟩
            | some outcome =>
                cases hresult : s.result i with
                | none => exact .inr (ready_of_step (.adopt hcall hresult hoperation))
                | some outcome' => exact .inr (ready_of_step (.owner hcall hcaller hresult))
          · have hresult : s.result i = none := Classical.byContradiction fun hnot =>
              hstarted (h.operation i (h.operation_of_result hnot))
            exact .inr (ready_of_step (.start hcall hstarted hresult hcaught))

/-- How much of a call is still to come. -/
def waits (s : WriteQueue α ε) (i : Nat) : Nat :=
  (if (s.caught i).isNone then 1 else 0) + (if s.started.elem i then 0 else 1) +
    (if (s.operation i).isNone then 1 else 0) + (if (s.result i).isNone then 1 else 0) +
      (if (s.tail i).isNone then 1 else 0) + (if (s.caller i).isNone then 1 else 0)

section
variable (h : Inv s)
include h

theorem Inv.unskipped {i j : Nat} (hsame : s.SameKey i j) (hlt : i < j) (hj : j ∈ s.started) :
    s.operation i ≠ none := by
  obtain ⟨before, call, hbefore, hcall, hkey⟩ := hsame
  exact h.operation_of_result (h.earlier_of_caught (h.started j hj) hcall hlt hbefore hkey)

theorem Inv.exclusive {i j : Nat} (hsame : s.SameKey i j) (hi : s.Running i) (hj : s.Running j) :
    i = j := by
  rcases Nat.lt_trichotomy i j with hlt | heq | hgt
  · exact absurd hi.2 (h.unskipped hsame hlt hj.1)
  · exact heq
  · obtain ⟨call, call', hcall, hcall', hkey⟩ := hsame
    exact absurd hj.2 (h.unskipped ⟨call', call, hcall', hcall, hkey.symm⟩ hgt hi.1)

theorem Inv.progress_lt {i : Nat} (hi : i < s.calls.length) (hcaller : s.caller i = none) :
    ∃ j, j ≤ i ∧ s.SameKey j i ∧ (s.Running j ∨ s.Ready j) :=
  h.progress (List.getElem?_eq_getElem hi) hcaller

/-- A queue that cannot go on has no call that is waiting. -/
theorem Inv.complete (hstuck : ∀ a, (∀ key, a ≠ .call key) → s.step a = none) {i : Nat}
    (hi : i < s.calls.length) :
    ∃ outcome, s.caller i = some outcome ∧ s.operation i = some outcome := by
  cases hcaller : s.caller i with
  | some outcome => exact ⟨outcome, rfl, h.result i outcome (h.caller i outcome hcaller)⟩
  | none =>
      obtain ⟨j, -, -, hrunning | ⟨job, s', hready⟩⟩ := h.progress_lt hi hcaller
      · have hsettle := step_iff.mpr (@Step.settle _ _ s j (.fulfilled none) hrunning)
        rw [hstuck _ fun _ heq => by cases heq] at hsettle
        cases hsettle
      · rw [hstuck _ fun _ heq => by cases heq] at hready
        cases hready

end

/-- The second operation starts when the first has been rejected, and a call
that comes before the entry is deleted keeps it. -/
example : (run [.call [], .react .caught 0, .react .start 0, .call [], .settle 0 (.rejected ()),
    .react .adopt 0, .react .tail 0, .react .caught 1, .react .start 1, .react .owner 0] :
      WriteQueue Unit Unit).started = [0, 1] := by decide

end Benchhand.Filesystem.WriteQueue
