/-
Benchhand.Filesystem.Runs — functions on a volume that nobody else changes.

Three ways to say what such a function does, each with one rule for each way
to build a function. `Yields` is about a run in which any call may fail:
whatever the function resolves with meets the postcondition. `Settles` and
`Total` are about a run in which no call fails but for the volume's own
reasons: it resolves, with that value and that volume, or with some that meet
the postcondition.
-/
import Benchhand.Filesystem.Error
import Benchhand.Process.ProgramTheorems

namespace Benchhand.Filesystem

open Text Posix Process

variable {α β : Type}

/-! ## Calls that may fail -/

/-- No other process changes the volume. -/
def Alone (outside : Nat → Turn) : Prop := ∀ n v, (outside n).foreign v = v

/-- Nothing happens but the calls. -/
def still : Nat → Turn := fun _ => ⟨fun v => v, fun _ _ => none⟩

theorem alone_still : Alone still := fun _ _ => rfl

/-- Run on the volume, the function resolves only with what meets `Q`. -/
structure Yields (outside : Nat → Turn) (p : Async α) (Q : α → Volume → Prop) (v : Volume) :
    Prop where
  wp : ∀ w : World, w.vol = v →
    Async.Wp (answer outside) p (fun a w' => Q a w'.vol) (fun _ _ => True) w

section
variable {outside : Nat → Turn} {Q : α → Volume → Prop} {v : Volume}

/-- What a run that resolves ends with. -/
theorem Yields.of_run {p : Async α} {w w' : World} (h : Yields outside p Q w.vol) {a : α}
    (hrun : Prog.run (answer outside) p.run w = (.ok a, w')) : Q a w'.vol := by
  have hwp := h.wp w rfl
  rw [Async.wp_iff, hrun] at hwp
  exact hwp

theorem yields_pure {a : α} (h : Q a v) : Yields outside (pure a) Q v := by
  refine ⟨?_⟩
  rintro w rfl
  exact Async.wp_pure.mpr h

theorem yields_throw (e : Thrown) : Yields outside (throw e : Async α) Q v :=
  ⟨fun _ _ => Async.wp_throw.mpr trivial⟩

theorem Yields.mono {p : Async α} {Q' : α → Volume → Prop} (h : Yields outside p Q v)
    (hQ : ∀ a v', Q a v' → Q' a v') : Yields outside p Q' v :=
  ⟨fun w hw => (h.wp w hw).mono (fun a w' => hQ a w'.vol) fun _ _ _ => trivial⟩

theorem yields_bind {p : Async α} {f : α → Async β} {R : β → Volume → Prop}
    (h : Yields outside p (fun a v' => Yields outside (f a) R v') v) :
    Yields outside (p >>= f) R v :=
  ⟨fun w hw => Async.wp_bind.mpr
    ((h.wp w hw).mono (fun _ w' hf => hf.wp w' rfl) fun _ _ _ => trivial)⟩

theorem yields_map {p : Async α} {g : α → β} {R : β → Volume → Prop}
    (h : Yields outside p (fun a => R (g a)) v) : Yields outside (g <$> p) R v :=
  ⟨fun w hw => Async.wp_map.mpr (h.wp w hw)⟩

/-- A handler that is good from everywhere. -/
theorem yields_tryCatch {p : Async α} {handle : Thrown → Async α} (h : Yields outside p Q v)
    (hhandle : ∀ e v', Yields outside (handle e) Q v') :
    Yields outside (tryCatch p handle) Q v :=
  ⟨fun w hw => Async.wp_tryCatch.mpr
    ((h.wp w hw).mono (fun _ _ hQ => hQ) fun e w' _ => (hhandle e w'.vol).wp w' rfl)⟩

theorem yields_mapError {p : Async α} {g : Thrown → Thrown} (h : Yields outside p Q v) :
    Yields outside (Async.mapError g p) Q v :=
  ⟨fun w hw => Async.wp_mapError.mpr
    ((h.wp w hw).mono (fun _ _ hQ => hQ) fun _ _ _ => trivial)⟩

theorem yields_ofExcept {r : Except FilesystemError α} (h : ∀ a, r = .ok a → Q a v) :
    Yields outside (ofExcept r) Q v := by
  cases r with
  | ok a => exact yields_pure (h a rfl)
  | error e => exact yields_throw _

theorem yields_fail {code : ErrorCode} {path : Option JsString} {message : JsString} :
    Yields outside (fail code path message) Q v := yields_throw _

theorem yields_failWhen {condition : Bool} {code : ErrorCode} {path : Option JsString}
    {message : JsString} {Q : PUnit → Volume → Prop} (h : condition = false → Q ⟨⟩ v) :
    Yields outside (failWhen condition code path message) Q v := by
  unfold failWhen
  split
  · exact yields_fail
  · rename_i hcondition
    exact yields_pure (h (Bool.eq_false_iff.mpr hcondition))

/-- The cleanup resolves too, or its exception is the outcome. -/
theorem yields_tryFinally {p : Async α} {cleanup : Async PUnit}
    (h : Yields outside p (fun a v' => Yields outside cleanup (fun _ => Q a) v') v) :
    Yields outside (tryFinally p cleanup) Q v := by
  refine ⟨fun w hw => Async.wp_tryFinally.mpr ?_⟩
  refine (h.wp w hw).mono (fun _ w' hc => hc.wp w' rfl) fun _ _ _ => ?_
  rw [Async.wp_iff]
  split <;> trivial

/-- The call fails like this in some run on the volume. -/
def Fails (outside : Nat → Turn) (c : Call) (v : Volume) (e : Errno) : Prop :=
  (∃ n fault, (outside n).fault c v = some fault ∧ fault.errno = e) ∨ (perform c v).1 = .error e

/-- A failing call leaves the volume as it is, if it writes no content. -/
theorem perform_error {c : Call} {e : Errno} (h : (perform c v).1 = .error e) :
    (perform c v).2 = v := by
  cases c with
  | openExclusive p mode =>
      simp only [perform, Volume.openExclusive] at h ⊢
      split
      · rfl
      · split
        · rfl
        · simp_all
  | link existing new =>
      simp only [perform, Volume.link] at h ⊢
      split
      · rfl
      · split
        · rfl
        · split <;> simp_all
  | rename old new =>
      simp only [perform, Volume.rename] at h ⊢
      split
      · rfl
      · rfl
      · split
        · rfl
        · split <;> simp_all
  | rm p =>
      simp only [perform, Volume.rm] at h ⊢
      split
      · rfl
      · rfl
      · split <;> simp_all
  | chmod handle mode => cases h
  | writeFile handle content => cases h
  | _ => rfl

/-- The calls that change nothing. -/
def ReadOnly : Call → Prop
  | .realpath _ => True
  | .lstat _ => True
  | .readdir _ => True
  | .openRead _ => True
  | .stat _ => True
  | .read _ _ _ => True
  | .readFile _ => True
  | .sync _ => True
  | .close _ => True
  | _ => False

section
variable (halone : Alone outside)
include halone

theorem answer_alone (c : Call) (w : World) :
    ((answer outside c w).1, (answer outside c w).2.vol) =
      ((outside w.log.length).fault c w.vol).elim (perform c w.vol) fun fault =>
        fault.apply c w.vol := by
  unfold answer
  simp only [halone w.log.length w.vol]
  cases (outside w.log.length).fault c w.vol <;> rfl

/-- A call that succeeds is carried out. -/
theorem answer_ok {c : Call} {w : World} {a : c.Returns} (h : (answer outside c w).1 = .ok a) :
    perform c w.vol = (.ok a, (answer outside c w).2.vol) := by
  have houtcome := answer_alone halone c w
  rw [h] at houtcome
  cases hfault : (outside w.log.length).fault c w.vol with
  | none =>
      rw [hfault] at houtcome
      exact houtcome.symm
  | some fault =>
      rw [hfault] at houtcome
      cases c <;> cases houtcome

theorem answer_error {c : Call} {w : World} {e : Errno} (h : (answer outside c w).1 = .error e) :
    Fails outside c w.vol e ∧
      ((∀ handle content, c ≠ .writeFile handle content) → (answer outside c w).2.vol = w.vol) := by
  have houtcome := answer_alone halone c w
  rw [h] at houtcome
  cases hfault : (outside w.log.length).fault c w.vol with
  | none =>
      rw [hfault] at houtcome
      have herror := congrArg Prod.fst houtcome.symm
      exact ⟨.inr herror, fun _ => (congrArg Prod.snd houtcome).trans (perform_error herror)⟩
  | some fault =>
      rw [hfault] at houtcome
      have herror : (fault.apply c w.vol).1 = .error fault.errno := by cases c <;> rfl
      have hfails : fault.errno = e :=
        Except.error.inj (herror.symm.trans (congrArg Prod.fst houtcome).symm)
      refine ⟨.inl ⟨_, fault, hfault, hfails⟩, fun hwrite => ?_⟩
      refine (congrArg Prod.snd houtcome).trans ?_
      cases c with
      | writeFile handle content => exact absurd rfl (hwrite handle content)
      | _ => rfl

theorem answer_readOnly {c : Call} (hc : ReadOnly c) (w : World) :
    (answer outside c w).2.vol = w.vol := by
  refine (congrArg Prod.snd (answer_alone halone c w)).trans ?_
  cases (outside w.log.length).fault c w.vol with
  | none => cases c <;> first | rfl | exact absurd hc id
  | some fault => cases c <;> first | rfl | exact absurd hc id

/-- A function that only reads leaves the volume as it is. -/
theorem yields_readOnly {p : Async α} (hp : Async.Uses ReadOnly p) :
    Yields outside p (fun _ v' => v' = v) v := by
  refine ⟨fun w hw => Async.wp_iff.mpr ?_⟩
  have hvol := Prog.Uses.run_invariant (I := fun w' => w'.vol = v)
    (fun c w' hc hvol => (answer_readOnly halone hc w').trans hvol) hp w hw
  split
  · exact hvol
  · trivial

/-- What a call resolves with is what the volume has. -/
theorem yields_call {c : Call} {Q : c.Returns → Volume → Prop}
    (h : ∀ a v', perform c v = (.ok a, v') → Q a v') : Yields outside (call c) Q v := by
  refine ⟨?_⟩
  rintro w rfl
  refine Async.wp_request.mpr ?_
  cases hanswer : (answer outside c w).1 with
  | ok a => exact h a _ (answer_ok halone hanswer)
  | error e => trivial

/-- A call whose failure is caught. -/
theorem yields_catch {c : Call} {g : c.Returns → α} {handle : Thrown → Async α}
    (hwrite : ∀ handle content, c ≠ .writeFile handle content)
    (h : ∀ a v', perform c v = (.ok a, v') → Q (g a) v')
    (hfails : ∀ e, Fails outside c v e → Yields outside (handle (.errno e)) Q v) :
    Yields outside (tryCatch (g <$> call c) handle) Q v := by
  refine ⟨?_⟩
  rintro w rfl
  refine Async.wp_tryCatch.mpr (Async.wp_map.mpr (Async.wp_request.mpr ?_))
  cases hanswer : (answer outside c w).1 with
  | ok a => exact h a _ (answer_ok halone hanswer)
  | error e =>
      obtain ⟨hfail, hvol⟩ := answer_error halone hanswer
      exact (hfails e hfail).wp _ (hvol hwrite)

/-- The temporary file is gone, or it is still there. -/
theorem yields_ignoreErrors_rm {path : JsString} {Q : PUnit → Volume → Prop}
    (h : ∀ v', perform (.rm path) v = (.ok ⟨⟩, v') → Q ⟨⟩ v') (hfails : Q ⟨⟩ v) :
    Yields outside (Async.ignoreErrors (rm path)) Q v := by
  refine ⟨?_⟩
  rintro w rfl
  refine Async.wp_ignoreErrors.mpr (Async.wp_request.mpr ?_)
  cases hanswer : (answer outside (.rm path) w).1 with
  | ok a => exact h _ (answer_ok halone hanswer)
  | error e =>
      have hvol := (answer_error halone hanswer).2 fun _ _ => Call.noConfusion
      dsimp only [Except.mapError]
      rw [hvol]
      exact hfails

end

/-! ### Bodies with local variables -/

/-- `Yields` for a body with local variables. -/
structure LocalYields {σ : Type} (outside : Nat → Turn) (p : Local Call Answer Thrown σ α)
    (Q : α → σ → Volume → Prop) (s : σ) (v : Volume) : Prop where
  wp : ∀ w : World, w.vol = v →
    Local.Wp (answer outside) p (fun a s' w' => Q a s' w'.vol) (fun _ _ _ => True) s w

section
variable {σ : Type} {s : σ} {p : Local Call Answer Thrown σ α} {Q : α → σ → Volume → Prop}

theorem localYields_pure {a : α} (h : Q a s v) :
    LocalYields outside (pure a : Local Call Answer Thrown σ α) Q s v := by
  refine ⟨?_⟩
  rintro w rfl
  exact Local.wp_pure.mpr h

theorem localYields_assign {g : σ → σ} {Q : PUnit → σ → Volume → Prop} (h : Q ⟨⟩ (g s) v) :
    LocalYields outside (Local.assign g) Q s v := by
  refine ⟨?_⟩
  rintro w rfl
  exact Local.wp_assign.mpr h

theorem localYields_bind {f : α → Local Call Answer Thrown σ β} {R : β → σ → Volume → Prop}
    (h : LocalYields outside p (fun a s' v' => LocalYields outside (f a) R s' v') s v) :
    LocalYields outside (p >>= f) R s v :=
  ⟨fun w hw => Local.wp_bind.mpr
    ((h.wp w hw).mono (fun _ _ w' hf => hf.wp w' rfl) fun _ _ _ _ => trivial)⟩

theorem localYields_lift {p : Async α} (h : Yields outside p (fun a => Q a s) v) :
    LocalYields outside (liftM p : Local Call Answer Thrown σ α) Q s v :=
  ⟨fun w hw => Local.wp_lift.mpr (h.wp w hw)⟩

theorem yields_localTryFinally {cleanup : σ → Async PUnit} {Q : α → Volume → Prop}
    (h : LocalYields outside p (fun a s' v' => Yields outside (cleanup s') (fun _ => Q a) v') s v) :
    Yields outside (Local.tryFinally s p cleanup) Q v := by
  refine ⟨fun w hw => Local.wp_tryFinally.mpr ?_⟩
  refine (h.wp w hw).mono (fun _ _ w' hc => hc.wp w' rfl) fun _ _ _ _ => ?_
  rw [Async.wp_iff]
  split <;> trivial

end

end

/-! ## Calls that do not fail -/

/-- Run on the volume, the function resolves with the value and leaves the
volume. -/
def Settles (p : Async α) (v : Volume) (a : α) (v' : Volume) : Prop :=
  Prog.run perform p.run v = (.ok a, v')

section
variable {p : Async α} {v v' v'' : Volume} {a : α}

/-- A function resolves with one value. -/
theorem Settles.value {b : α} (ha : Settles p v a v') (hb : Settles p v b v'') : a = b :=
  Except.ok.inj (congrArg Prod.fst (ha.symm.trans hb))

theorem settles_pure : Settles (pure a) v a v := rfl

theorem settles_bind {f : α → Async β} {b : β} (hp : Settles p v a v')
    (hf : Settles (f a) v' b v'') : Settles (p >>= f) v b v'' := by
  unfold Settles at hp hf ⊢
  refine (Prog.run_bind p.run _ v).trans ?_
  rw [hp]
  exact hf

theorem settles_map {g : α → β} (h : Settles p v a v') : Settles (g <$> p) v (g a) v' := by
  unfold Settles at h ⊢
  refine (Prog.run_bind p.run _ v).trans ?_
  rw [h]
  rfl

theorem settles_call {c : Call} {a : c.Returns} (h : perform c v = (.ok a, v')) :
    Settles (call c) v a v' := by
  change (((perform c v).1.mapError Thrown.errno), (perform c v).2) = _
  rw [h]
  rfl

theorem settles_catch {handle : Thrown → Async α} (h : Settles p v a v') :
    Settles (tryCatch p handle) v a v' := by
  unfold Settles at h ⊢
  refine (Prog.run_bind p.run _ v).trans ?_
  rw [h]
  rfl

theorem settles_mapError {g : Thrown → Thrown} (h : Settles p v a v') :
    Settles (Async.mapError g p) v a v' := settles_catch h

theorem settles_ofExcept {r : Except FilesystemError α} (h : r = .ok a) :
    Settles (ofExcept r) v a v := by
  rw [h]
  rfl

theorem settles_failWhen {condition : Bool} {code : ErrorCode} {path : Option JsString}
    {message : JsString} (h : condition = false) :
    Settles (failWhen condition code path message) v ⟨⟩ v := by
  rw [h]
  rfl

theorem settles_tryFinally {cleanup : Async PUnit} (hp : Settles p v a v')
    (hc : Settles cleanup v' ⟨⟩ v'') : Settles (tryFinally p cleanup) v a v'' := by
  unfold Settles at hp hc ⊢
  rw [Async.run_tryFinally, Prog.run_bind, hp]
  refine (Prog.run_bind cleanup.run _ v').trans ?_
  rw [hc]
  rfl

end

/-- Run on the volume, the function resolves, with what meets `Q`. -/
structure Total (p : Async α) (Q : α → Volume → Prop) (v : Volume) : Prop where
  wp : Async.Wp perform p Q (fun _ _ => False) v

section
variable {p : Async α} {Q : α → Volume → Prop} {v v' : Volume} {a : α}

theorem total_wp : Total p Q v ↔ Async.Wp perform p Q (fun _ _ => False) v :=
  ⟨Total.wp, Total.mk⟩

theorem total_iff : Total p Q v ↔ ∃ a v', Settles p v a v' ∧ Q a v' := by
  rw [total_wp]
  unfold Async.Wp Settles
  generalize Prog.run perform p.run v = out
  obtain ⟨outcome, v'⟩ := out
  cases outcome with
  | ok a => exact ⟨fun h => ⟨a, v', rfl, h⟩, fun ⟨_, _, heq, h⟩ => by cases heq; exact h⟩
  | error e => exact ⟨False.elim, fun ⟨_, _, heq, _⟩ => by cases heq⟩

theorem Settles.total (h : Settles p v a v') : Total p Q v ↔ Q a v' := by
  rw [total_iff]
  refine ⟨fun ⟨b, v'', hb, hQ⟩ => ?_, fun hQ => ⟨a, v', h, hQ⟩⟩
  obtain ⟨heq, rfl⟩ := Prod.mk.inj (h.symm.trans hb)
  obtain rfl := Except.ok.inj heq
  exact hQ

theorem Total.mono {Q' : α → Volume → Prop} (h : Total p Q v) (hQ : ∀ a v', Q a v' → Q' a v') :
    Total p Q' v :=
  ⟨h.wp.mono hQ fun _ _ => id⟩

theorem total_pure : Total (pure a) Q v ↔ Q a v := total_wp.trans Async.wp_pure

theorem total_throw {e : Thrown} : Total (throw e : Async α) Q v ↔ False :=
  total_wp.trans Async.wp_throw

theorem total_bind {f : α → Async β} {R : β → Volume → Prop} :
    Total (p >>= f) R v ↔ Total p (fun a => Total (f a) R) v := by
  rw [total_wp, Async.wp_bind]
  exact ⟨fun h => ⟨h.mono (fun _ _ h => ⟨h⟩) fun _ _ => id⟩,
    fun h => h.wp.mono (fun _ _ h => h.wp) fun _ _ => id⟩

theorem total_mapError {g : Thrown → Thrown} : Total (Async.mapError g p) Q v ↔ Total p Q v := by
  simp only [total_wp, Async.wp_mapError]

theorem total_ofExcept {r : Except FilesystemError α} :
    Total (ofExcept r) Q v ↔ ∃ a, r = .ok a ∧ Q a v := by
  cases r with
  | ok a => exact ⟨fun h => ⟨a, rfl, h.wp⟩, fun ⟨_, heq, h⟩ => by cases heq; exact ⟨h⟩⟩
  | error e => exact ⟨fun h => h.wp.elim, fun ⟨_, heq, _⟩ => by cases heq⟩

theorem total_failWhen {condition : Bool} {code : ErrorCode} {path : Option JsString}
    {message : JsString} {Q : PUnit → Volume → Prop} :
    Total (failWhen condition code path message) Q v ↔ condition = false ∧ Q ⟨⟩ v := by
  cases condition with
  | false => exact ⟨fun h => ⟨rfl, h.wp⟩, fun h => ⟨h.2⟩⟩
  | true => exact ⟨fun h => h.wp.elim, fun h => absurd h.1 (by decide)⟩

theorem total_call {c : Call} {Q : c.Returns → Volume → Prop} :
    Total (call c) Q v ↔ ∃ a v', perform c v = (.ok a, v') ∧ Q a v' := by
  rw [total_wp, call, Async.wp_request]
  generalize perform c v = out
  obtain ⟨outcome, v'⟩ := out
  cases outcome with
  | ok a => exact ⟨fun h => ⟨a, v', rfl, h⟩, fun ⟨_, _, heq, h⟩ => by cases heq; exact h⟩
  | error e => exact ⟨False.elim, fun ⟨_, _, heq, _⟩ => by cases heq⟩

/-- A call whose failure is caught. -/
theorem total_catch {c : Call} {g : c.Returns → α} {handle : Thrown → Async α} :
    Total (tryCatch (g <$> call c) handle) Q v ↔
      (∃ a v', perform c v = (.ok a, v') ∧ Q (g a) v') ∨
        ∃ e v', perform c v = (.error e, v') ∧ Total (handle (.errno e)) Q v' := by
  simp only [total_wp]
  rw [Async.wp_tryCatch, Async.wp_map, call, Async.wp_request]
  generalize perform c v = out
  obtain ⟨outcome, v'⟩ := out
  cases outcome with
  | ok a =>
      refine ⟨fun h => .inl ⟨a, v', rfl, h⟩, ?_⟩
      rintro (⟨_, _, heq, h⟩ | ⟨_, _, heq, -⟩)
      · cases heq
        exact h
      · cases heq
  | error e =>
      refine ⟨fun h => .inr ⟨e, v', rfl, h⟩, ?_⟩
      rintro (⟨_, _, heq, -⟩ | ⟨_, _, heq, h⟩)
      · cases heq
      · cases heq
        exact h

/-- A cleanup must resolve as well. -/
theorem total_tryFinally {cleanup : Async PUnit} : Total (tryFinally p cleanup) Q v ↔
    Total p (fun a => Total cleanup fun _ => Q a) v := by
  rw [total_wp, Async.wp_tryFinally]
  refine ⟨fun h => ⟨h.mono (fun _ _ h => ⟨h⟩) fun e v' he => ?_⟩,
    fun h => h.wp.mono (fun _ _ h => h.wp) fun _ _ => False.elim⟩
  rw [Async.wp_iff] at he
  split at he <;> exact he

/-- A function whose exceptions are all caught. -/
theorem total_caught {handle : Thrown → Async α} (hp : ∀ a v', Q a v')
    (hhandle : ∀ e v', Total (handle e) Q v') : Total (tryCatch p handle) Q v := by
  refine ⟨Async.wp_tryCatch.mpr ?_⟩
  rw [Async.wp_iff]
  split
  · exact hp _ _
  · exact (hhandle _ _).wp

/-- Undisturbed, the calls are carried out. -/
theorem run_still (p : Async α) (w : World) :
    (Prog.run (answer still) p.run w).1 = (Prog.run perform p.run w.vol).1 ∧
      (Prog.run (answer still) p.run w).2.vol = (Prog.run perform p.run w.vol).2 := by
  have hstep (c : Call) (w : World) (v : Volume) (_ : True) (hvol : w.vol = v) :
      (answer still c w).1 = (perform c v).1 ∧ (answer still c w).2.vol = (perform c v).2 :=
    hvol ▸ ⟨rfl, rfl⟩
  exact Prog.Uses.run_agree hstep (Prog.uses_any p.run) w w.vol rfl

/-- What a function yields, it resolves with. -/
theorem Total.yields {R : α → Volume → Prop} (h : Total p Q v) (hyields : Yields still p R v) :
    Total p (fun a v' => R a v' ∧ Q a v') v := by
  obtain ⟨a, v', hsettles, hQ⟩ := total_iff.mp h
  refine hsettles.total.mpr ⟨?_, hQ⟩
  obtain ⟨houtcome, hvol⟩ := run_still p ⟨v, []⟩
  have hrun : Prog.run (answer still) p.run ⟨v, []⟩ = (.ok a, (Prog.run (answer still) p.run
      ⟨v, []⟩).2) := Prod.ext (houtcome.trans (congrArg Prod.fst hsettles)) rfl
  have hR := Yields.of_run (w := ⟨v, []⟩) hyields hrun
  rwa [hvol.trans (congrArg Prod.snd hsettles)] at hR

end

/-! ### Bodies with local variables -/

/-- `Total` for a body with local variables. -/
structure LocalTotal {σ : Type} (p : Local Call Answer Thrown σ α) (Q : α → σ → Volume → Prop)
    (s : σ) (v : Volume) : Prop where
  wp : Local.Wp perform p Q (fun _ _ _ => False) s v

section
variable {σ : Type} {s : σ} {p : Local Call Answer Thrown σ α} {Q : α → σ → Volume → Prop}
  {v : Volume}

theorem localTotal_wp : LocalTotal p Q s v ↔ Local.Wp perform p Q (fun _ _ _ => False) s v :=
  ⟨LocalTotal.wp, LocalTotal.mk⟩

theorem localTotal_pure {a : α} :
    LocalTotal (pure a : Local Call Answer Thrown σ α) Q s v ↔ Q a s v :=
  localTotal_wp.trans Local.wp_pure

theorem localTotal_assign {g : σ → σ} {Q : PUnit → σ → Volume → Prop} :
    LocalTotal (Local.assign g) Q s v ↔ Q ⟨⟩ (g s) v := localTotal_wp.trans Local.wp_assign

theorem localTotal_bind {f : α → Local Call Answer Thrown σ β} {R : β → σ → Volume → Prop} :
    LocalTotal (p >>= f) R s v ↔ LocalTotal p (fun a s' v' => LocalTotal (f a) R s' v') s v := by
  rw [localTotal_wp, Local.wp_bind]
  exact ⟨fun h => ⟨h.mono (fun _ _ _ h => ⟨h⟩) fun _ _ _ => id⟩,
    fun h => h.wp.mono (fun _ _ _ h => h.wp) fun _ _ _ => id⟩

theorem localTotal_lift {p : Async α} :
    LocalTotal (liftM p : Local Call Answer Thrown σ α) Q s v ↔ Total p (fun a => Q a s) v := by
  rw [localTotal_wp, total_wp, Local.wp_lift]

theorem total_localTryFinally {cleanup : σ → Async PUnit} {Q : α → Volume → Prop} :
    Total (Local.tryFinally s p cleanup) Q v ↔
      LocalTotal p (fun a s' v' => Total (cleanup s') (fun _ => Q a) v') s v := by
  rw [total_wp, Local.wp_tryFinally]
  refine ⟨fun h => ⟨h.mono (fun _ _ _ h => ⟨h⟩) fun e s' v' he => ?_⟩,
    fun h => h.wp.mono (fun _ _ _ h => h.wp) fun _ _ _ => False.elim⟩
  rw [Async.wp_iff] at he
  split at he <;> exact he

end

end Benchhand.Filesystem
