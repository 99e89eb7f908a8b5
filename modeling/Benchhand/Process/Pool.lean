/-
Benchhand.Process.Pool — programs that run at once in one world.

A `Pool` is a world and the programs started in it. A step is one call of one
program: the others run in between, and a program whose steps never come has
crashed. `Prog.Safe` is a rely–guarantee triple: from a world on, whatever the
others do within `rely`, every call of the program keeps the invariant and its
own guarantee, and the program ends as it should. `Pool.Sound` is the induction
over a run of programs that rely on each other, `Pool.Turns` over one in which
a program runs alone until the next is started, and `Pool.ends` says that a
program that is called again and again ends.
-/
import Benchhand.Process.Traces
import Benchhand.Process.Runs

namespace Benchhand.Process

variable {Q C : Type} {R : C → Type} {W E ε α β : Type}

/-! ## Threads -/

/-- A request, what its program has seen so far, and what is left of it. -/
structure Thread (Q C : Type) (R : C → Type) (α : Type) where
  request : Q
  history : Trace C R
  rest : Prog C R α

structure Pool (Q C : Type) (R : C → Type) (W α : Type) where
  world : W
  threads : List (Thread Q C R α)

inductive Pool.Action (Q E : Type) where
  | start (request : Q)
  /-- Program `i` makes its next call; `choice` is what the world does not
  decide. -/
  | call (i : Nat) (choice : E)

/-- One call of a thread; a thread that has ended stays as it is. -/
def Thread.step (h : Handler C R W) (t : Thread Q C R α) (w : W) : Thread Q C R α × W :=
  match t.rest with
  | .done _ => (t, w)
  | .call c next =>
      (⟨t.request, t.history ++ [⟨c, (h c w).1⟩], next (h c w).1⟩, (h c w).2)

/-- One step; an action that is not possible changes nothing. -/
def Pool.step (program : Q → Prog C R α) (handler : E → Handler C R W) (s : Pool Q C R W α) :
    Pool.Action Q E → Pool Q C R W α
  | .start q => { s with threads := s.threads ++ [⟨q, [], program q⟩] }
  | .call i e =>
      match s.threads[i]? with
      | none => s
      | some t =>
          ⟨(t.step (handler e) s.world).2, s.threads.set i (t.step (handler e) s.world).1⟩

/-! ## What a step can do -/

section
variable {program : Q → Prog C R α} {handler : E → Handler C R W} {s : Pool Q C R W α}
  {t t' : Thread Q C R α} {i j : Nat} {e : E}

/-- A thread after a call: another thread, or one that has made the call. -/
inductive Thread.Next (handler : E → Handler C R W) (e : E) (s : Pool Q C R W α) (i j : Nat)
    (t' : Thread Q C R α) : Prop
  | other (h : s.threads[j]? = some t') (hworld : j ≠ i ∨ ∃ a, t'.rest = .done a)
  | called {t : Thread Q C R α} (h : s.threads[i]? = some t) (hj : j = i) (c : C)
      (next : R c → Prog C R α) (hrest : t.rest = .call c next)
      (ht : t' = ⟨t.request, t.history ++ [⟨c, (handler e c s.world).1⟩],
        next (handler e c s.world).1⟩)

theorem Pool.step_thread
    (h : (s.step program handler (.call i e)).threads[j]? = some t') :
    Thread.Next handler e s i j t' := by
  simp only [Pool.step] at h
  cases hi : s.threads[i]? with
  | none =>
      rw [hi] at h
      refine .other h (.inl fun hj => ?_)
      rw [hj, hi] at h
      cases h
  | some t =>
      rw [hi] at h
      obtain ⟨hj, ht⟩ | ⟨hj, ht⟩ := getElem?_set_cases h
      · cases hrest : t.rest with
        | done a =>
            simp only [Thread.step, hrest] at ht
            rw [ht]
            exact .other (hj ▸ hi) (.inr ⟨a, hrest⟩)
        | call c next =>
            simp only [Thread.step, hrest] at ht
            exact .called hi hj c next hrest ht
      · exact .other ht (.inl hj)

/-- The world after a call: unchanged, or changed by the handler. -/
theorem Pool.step_world (program : Q → Prog C R α) (handler : E → Handler C R W)
    (s : Pool Q C R W α) (i : Nat) (e : E) :
    (s.step program handler (.call i e)).world = s.world ∨
    ∃ t c next, s.threads[i]? = some t ∧ t.rest = .call c next ∧
      (s.step program handler (.call i e)).world = (handler e c s.world).2 := by
  simp only [Pool.step]
  cases hi : s.threads[i]? with
  | none => exact .inl rfl
  | some t =>
      cases hrest : t.rest with
      | done a => exact .inl (by simp only [Thread.step, hrest])
      | call c next =>
          exact .inr ⟨t, c, next, rfl, hrest, by simp only [Thread.step, hrest]⟩

theorem Pool.length_call (program : Q → Prog C R α) (handler : E → Handler C R W)
    (s : Pool Q C R W α) (i : Nat) (e : E) :
    (s.step program handler (.call i e)).threads.length = s.threads.length := by
  simp only [Pool.step]
  cases s.threads[i]? with
  | none => rfl
  | some t => exact List.length_set

theorem Pool.start_thread {q : Q}
    (h : (s.step program handler (.start q)).threads[j]? = some t') :
    s.threads[j]? = some t' ∨ j = s.threads.length ∧ t' = ⟨q, [], program q⟩ := by
  rw [Pool.step, List.getElem?_append] at h
  split at h
  · exact .inl h
  · rename_i hlen
    obtain ⟨hj, ht⟩ := List.getElem?_eq_some_iff.mp h
    rw [List.length_singleton] at hj
    rw [List.getElem_singleton] at ht
    exact .inr ⟨by omega, ht.symm⟩

end

/-! ## Rely and guarantee -/

/-- What programs that run at once agree on: `rely` is what the others may do
between two calls, `guar` what a call does itself, after what was seen. -/
structure Rules (C : Type) (R : C → Type) (W E : Type) where
  handler : E → Handler C R W
  inv : W → Prop
  rely : W → W → Prop
  guar : Trace C R → C → W → W → Prop
  refl : ∀ w, rely w w
  trans : ∀ {u v w}, rely u v → rely v w → rely u w

variable (rules : Rules C R W E)

/-- Which choices are possible at a call, after what was seen. -/
abbrev Choices (C : Type) (R : C → Type) (W E : Type) := Trace C R → C → W → E → Prop

def Prog.Safe (choices : Choices C R W E) (post : Process.Trace C R → α → W → Prop) :
    Prog C R α → Process.Trace C R → W → Prop
  | .done a, seen, w => ∀ v, rules.rely w v → rules.inv v → post seen a v
  | .call c next, seen, w => ∀ v, rules.rely w v → rules.inv v → ∀ e, choices seen c v e →
      rules.inv (rules.handler e c v).2 ∧ rules.guar seen c v (rules.handler e c v).2 ∧
      (next (rules.handler e c v).1).Safe choices post
        (seen ++ [⟨c, (rules.handler e c v).1⟩]) (rules.handler e c v).2

variable {rules} {choices : Choices C R W E} {post post' : Process.Trace C R → α → W → Prop}

namespace Prog.Safe

variable {p : Prog C R α} {seen : Process.Trace C R} {v w : W}

theorem later (h : p.Safe rules choices post seen w) (hv : rules.rely w v) :
    p.Safe rules choices post seen v := by
  cases p with
  | done a => exact fun u hu => h u (rules.trans hv hu)
  | call c next => exact fun u hu => h u (rules.trans hv hu)

/-- A triple may assume the invariant at any later world. -/
theorem intro (h : ∀ v, rules.rely w v → rules.inv v → p.Safe rules choices post seen v) :
    p.Safe rules choices post seen w := by
  cases p with
  | done a => exact fun u hu hinv => h u hu hinv u (rules.refl u) hinv
  | call c next => exact fun u hu hinv => h u hu hinv u (rules.refl u) hinv

theorem mono (hpost : ∀ seen a w, rules.inv w → post seen a w → post' seen a w) :
    ∀ {p : Prog C R α} {seen : Process.Trace C R} {w : W}, p.Safe rules choices post seen w →
      p.Safe rules choices post' seen w
  | .done _, _, _, h => fun v hv hinv => hpost _ _ v hinv (h v hv hinv)
  | .call _ _, _, _, h => fun v hv hinv e he =>
      let ⟨hinv', hguar, hnext⟩ := h v hv hinv e he
      ⟨hinv', hguar, mono hpost hnext⟩

theorem bind {f : α → Prog C R β} {post' : Process.Trace C R → β → W → Prop}
    (hf : ∀ seen a w, rules.inv w → post seen a w → (f a).Safe rules choices post' seen w) :
    ∀ {p : Prog C R α} {seen : Process.Trace C R} {w : W}, p.Safe rules choices post seen w →
      (p.bind f).Safe rules choices post' seen w
  | .done _, _, _, h => intro fun v hv hinv => hf _ _ v hinv (h v hv hinv)
  | .call _ _, _, _, h => fun v hv hinv e he =>
      let ⟨hinv', hguar, hnext⟩ := h v hv hinv e he
      ⟨hinv', hguar, bind hf hnext⟩

/-- What neither the others nor a call of its own can undo holds at the end. -/
theorem frame {F : Process.Trace C R → W → Prop}
    (hrely : ∀ seen v w, rules.rely v w → F seen v → F seen w)
    (hguar : ∀ seen c r v w, rules.guar seen c v w → F seen v → F (seen ++ [⟨c, r⟩]) w) :
    ∀ {p : Prog C R α} {seen : Process.Trace C R} {w : W}, p.Safe rules choices post seen w →
      F seen w → p.Safe rules choices (fun seen a w => post seen a w ∧ F seen w) seen w
  | .done _, _, _, h, hw => fun v hv hinv => ⟨h v hv hinv, hrely _ _ v hv hw⟩
  | .call _ _, _, _, h, hw => fun v hv hinv e he =>
      let ⟨hinv', hg, hnext⟩ := h v hv hinv e he
      ⟨hinv', hg, frame hrely hguar hnext (hguar _ _ _ _ _ hg (hrely _ _ v hv hw))⟩

theorem and :
    ∀ {p : Prog C R α} {seen : Process.Trace C R} {w : W}, p.Safe rules choices post seen w →
      p.Safe rules choices post' seen w →
      p.Safe rules choices (fun seen a w => post seen a w ∧ post' seen a w) seen w
  | .done _, _, _, h, h' => fun v hv hinv => ⟨h v hv hinv, h' v hv hinv⟩
  | .call _ _, _, _, h, h' => fun v hv hinv e he =>
      let ⟨hinv', hguar, hnext⟩ := h v hv hinv e he
      ⟨hinv', hguar, and hnext (h' v hv hinv e he).2.2⟩

/-- A program of calls that are always all right is safe, and they may count on
what they keep. -/
theorem of_uses {allowed : C → Prop} {F : Process.Trace C R → W → Prop}
    (hrely : ∀ seen v w, rules.rely v w → F seen v → F seen w)
    (hcall : ∀ seen c v e, allowed c → rules.inv v → choices seen c v e → F seen v →
      rules.inv (rules.handler e c v).2 ∧ rules.guar seen c v (rules.handler e c v).2 ∧
        F (seen ++ [⟨c, (rules.handler e c v).1⟩]) (rules.handler e c v).2) :
    ∀ {p : Prog C R α} {seen : Process.Trace C R} {w : W}, p.Uses allowed → F seen w →
      p.Safe rules choices (fun seen _ w => F seen w) seen w
  | .done _, _, _, _, hw => fun v hv _ => hrely _ _ v hv hw
  | .call _ _, _, _, h, hw => fun v hv hinv e he =>
      let ⟨hinv', hguar, hF⟩ := hcall _ _ v e h.1 hinv he (hrely _ _ v hv hw)
      ⟨hinv', hguar, of_uses hrely hcall (h.2 _) hF⟩

end Prog.Safe

/-! ### Functions with exceptions -/

namespace Async

/-- A triple with one end for each outcome. -/
def Safe (rules : Rules C R W E) (choices : Choices C R W E) (p : Async C R ε α)
    (ok : Trace C R → α → W → Prop) (err : Trace C R → ε → W → Prop) (seen : Trace C R) (w : W) :
    Prop :=
  Prog.Safe rules choices (fun seen outcome w =>
    match outcome with
    | .ok a => ok seen a w
    | .error e => err seen e w) p.run seen w

variable {p : Async C R ε α} {f : α → Async C R ε β} {seen : Trace C R} {w : W}
  {P P' : Trace C R → α → W → Prop} {X X' : Trace C R → ε → W → Prop}

theorem Safe.later {v : W} (h : Safe rules choices p P X seen w) (hv : rules.rely w v) :
    Safe rules choices p P X seen v := Prog.Safe.later h hv

theorem Safe.intro (h : ∀ v, rules.rely w v → rules.inv v → Safe rules choices p P X seen v) :
    Safe rules choices p P X seen w := Prog.Safe.intro h

theorem safe_pure {a : α} (h : ∀ v, rules.rely w v → rules.inv v → P seen a v) :
    Safe rules choices (pure a : Async C R ε α) P X seen w := h

theorem safe_throw {e : ε} (h : ∀ v, rules.rely w v → rules.inv v → X seen e v) :
    Safe rules choices (throw e : Async C R ε α) P X seen w := h

theorem Safe.mono (h : Safe rules choices p P X seen w)
    (hok : ∀ seen a w, rules.inv w → P seen a w → P' seen a w)
    (herr : ∀ seen e w, rules.inv w → X seen e w → X' seen e w) :
    Safe rules choices p P' X' seen w := by
  refine Prog.Safe.mono (fun seen outcome w hinv hpost => ?_) h
  cases outcome with
  | ok a => exact hok seen a w hinv hpost
  | error e => exact herr seen e w hinv hpost

/-- The rule of sequence: what comes first ends where the rest is safe. -/
theorem Safe.bind {P' : Trace C R → β → W → Prop} (h : Safe rules choices p P X seen w)
    (hf : ∀ seen a w, rules.inv w → P seen a w → Safe rules choices (f a) P' X' seen w)
    (herr : ∀ seen e w, rules.inv w → X seen e w →
      ∀ v, rules.rely w v → rules.inv v → X' seen e v) :
    Safe rules choices (p >>= f) P' X' seen w := by
  refine Prog.Safe.bind (fun seen outcome w hinv hpost => ?_) h
  cases outcome with
  | ok a => exact hf seen a w hinv hpost
  | error e => exact herr seen e w hinv hpost

theorem Safe.map {g : α → β} {P' : Trace C R → β → W → Prop}
    (h : Safe rules choices p P X seen w)
    (hok : ∀ seen a w, rules.inv w → P seen a w →
      ∀ v, rules.rely w v → rules.inv v → P' seen (g a) v)
    (herr : ∀ seen e w, rules.inv w → X seen e w →
      ∀ v, rules.rely w v → rules.inv v → X' seen e v) :
    Safe rules choices (g <$> p) P' X' seen w := by
  refine Prog.Safe.bind (fun seen outcome w hinv hpost => ?_) h
  cases outcome with
  | ok a => exact hok seen a w hinv hpost
  | error e => exact herr seen e w hinv hpost

theorem Safe.tryCatch {handle : ε → Async C R ε α} (h : Safe rules choices p P X seen w)
    (hok : ∀ seen a w, rules.inv w → P seen a w →
      ∀ v, rules.rely w v → rules.inv v → P' seen a v)
    (hf : ∀ seen e w, rules.inv w → X seen e w →
      Safe rules choices (handle e) P' X' seen w) :
    Safe rules choices (tryCatch p handle) P' X' seen w := by
  refine Prog.Safe.bind (fun seen outcome w hinv hpost => ?_) h
  cases outcome with
  | ok a => exact hok seen a w hinv hpost
  | error e => exact hf seen e w hinv hpost

theorem Safe.mapError {g : ε → ε} (h : Safe rules choices p P X seen w)
    (hok : ∀ seen a w, rules.inv w → P seen a w →
      ∀ v, rules.rely w v → rules.inv v → P' seen a v)
    (herr : ∀ seen e w, rules.inv w → X seen e w →
      ∀ v, rules.rely w v → rules.inv v → X' seen (g e) v) :
    Safe rules choices (mapError g p) P' X' seen w :=
  h.tryCatch hok fun seen e w hinv he => safe_throw (herr seen e w hinv he)

theorem Safe.frame {F : Trace C R → W → Prop} (h : Safe rules choices p P X seen w)
    (hw : F seen w) (hrely : ∀ seen v w, rules.rely v w → F seen v → F seen w)
    (hguar : ∀ seen c r v w, rules.guar seen c v w → F seen v → F (seen ++ [⟨c, r⟩]) w) :
    Safe rules choices p (fun seen a w => P seen a w ∧ F seen w)
      (fun seen e w => X seen e w ∧ F seen w) seen w := by
  refine Prog.Safe.mono (fun seen outcome w _ hpost => ?_) (Prog.Safe.frame hrely hguar h hw)
  cases outcome with
  | ok a => exact hpost
  | error e => exact hpost

/-- The rule of conjunction. -/
theorem Safe.and (h : Safe rules choices p P X seen w) (h' : Safe rules choices p P' X' seen w) :
    Safe rules choices p (fun seen a w => P seen a w ∧ P' seen a w)
      (fun seen e w => X seen e w ∧ X' seen e w) seen w := by
  refine Prog.Safe.mono (fun seen outcome w _ hpost => ?_) (Prog.Safe.and h h')
  cases outcome with
  | ok a => exact hpost
  | error e => exact hpost

theorem safe_of_uses {allowed : C → Prop} {F : Trace C R → W → Prop}
    (hrely : ∀ seen v w, rules.rely v w → F seen v → F seen w)
    (hcall : ∀ seen c v e, allowed c → rules.inv v → choices seen c v e → F seen v →
      rules.inv (rules.handler e c v).2 ∧ rules.guar seen c v (rules.handler e c v).2 ∧
        F (seen ++ [⟨c, (rules.handler e c v).1⟩]) (rules.handler e c v).2)
    (h : Uses allowed p) (hw : F seen w) :
    Safe rules choices p (fun seen _ w => F seen w) (fun seen _ w => F seen w) seen w := by
  refine Prog.Safe.mono (fun seen outcome w _ hpost => ?_) (Prog.Safe.of_uses hrely hcall h hw)
  cases outcome with
  | ok a => exact hpost
  | error e => exact hpost

/-- One call. -/
theorem safe_request {c : C} {answer : R c → Except ε α}
    (h : ∀ v, rules.rely w v → rules.inv v → ∀ e, choices seen c v e →
      rules.inv (rules.handler e c v).2 ∧ rules.guar seen c v (rules.handler e c v).2 ∧
      ∀ u, rules.rely (rules.handler e c v).2 u → rules.inv u →
        match answer (rules.handler e c v).1 with
        | .ok a => P (seen ++ [⟨c, (rules.handler e c v).1⟩]) a u
        | .error x => X (seen ++ [⟨c, (rules.handler e c v).1⟩]) x u) :
    Safe rules choices (request c answer) P X seen w := h

/-- One call of which only the answer matters. -/
theorem safe_answer {c : C} {answer : R c → Except ε α}
    (hcall : ∀ v e, rules.inv v → choices seen c v e →
      rules.inv (rules.handler e c v).2 ∧ rules.guar seen c v (rules.handler e c v).2) :
    Safe rules choices (request c answer)
      (fun s a _ => ∃ r, s = seen ++ [⟨c, r⟩] ∧ answer r = .ok a)
      (fun s x _ => ∃ r, s = seen ++ [⟨c, r⟩] ∧ answer r = .error x) seen w := by
  refine safe_request fun v _ hinv e he => ?_
  obtain ⟨hinv', hguar⟩ := hcall v e hinv he
  refine ⟨hinv', hguar, fun u _ _ => ?_⟩
  split
  · rename_i a ha
    exact ⟨_, rfl, ha⟩
  · rename_i x hx
    exact ⟨_, rfl, hx⟩

end Async

/-! ## Runs -/

namespace Pool

variable {program : Q → Prog C R α} {s : Pool Q C R W α}

/-- Which steps are taken: `starts` says which requests may start in a world. -/
def Allowed (starts : Q → W → Prop) (choices : Q → Choices C R W E) (s : Pool Q C R W α) :
    Action Q E → Prop
  | .start q => starts q s.world
  | .call i e => ∀ t c next, s.threads[i]? = some t → t.rest = .call c next →
      choices t.request t.history c s.world e

theorem allowed_of_forall {starts : Q → W → Prop} {choices : Q → Choices C R W E}
    (hstarts : ∀ q w, starts q w) (hchoices : ∀ q seen c w e, choices q seen c w e)
    (s : Pool Q C R W α) (a : Action Q E) : Allowed starts choices s a := by
  cases a with
  | start q => exact hstarts q s.world
  | call i e => exact fun _ _ _ _ _ => hchoices _ _ _ _ _

theorem Allowed.mono {starts : Q → W → Prop} {choices choices' : Q → Choices C R W E}
    (h : ∀ q seen c w e, choices q seen c w e → choices' q seen c w e) {a : Action Q E}
    (ha : Allowed starts choices s a) : Allowed starts choices' s a := by
  cases a with
  | start q => exact ha
  | call i e => exact fun t c next ht hrest => h _ _ _ _ _ (ha t c next ht hrest)

/-- Every thread is safe where it stands. -/
structure Sound (rules : Rules C R W E) (choices : Q → Choices C R W E)
    (post : Q → Trace C R → α → W → Prop) (s : Pool Q C R W α) : Prop where
  world : rules.inv s.world
  threads : ∀ (i : Nat) t, s.threads[i]? = some t →
    t.rest.Safe rules (choices t.request) (post t.request) t.history s.world

variable {starts : Q → W → Prop} {choices : Q → Choices C R W E}
  {post : Q → Trace C R → α → W → Prop}

/-- Threads that rely on no more than every call guarantees stay safe. -/
theorem Sound.step (hguar : ∀ seen c v w, rules.guar seen c v w → rules.rely v w)
    (hprogram : ∀ q w, starts q w → rules.inv w →
      (program q).Safe rules (choices q) (post q) [] w)
    (a : Action Q E) (ha : Allowed starts choices s a) (h : Sound rules choices post s) :
    Sound rules choices post (s.step program rules.handler a) := by
  cases a with
  | start q =>
      refine ⟨h.world, fun i t ht => ?_⟩
      obtain ht | ⟨-, rfl⟩ := start_thread ht
      · exact h.threads i t ht
      · exact hprogram q s.world ha h.world
  | call i e =>
      have hcalled : ∀ t c next, s.threads[i]? = some t → t.rest = .call c next → _ :=
        fun t c next hi hrest => by
          have hsafe := h.threads i t hi
          rw [hrest] at hsafe
          exact hsafe s.world (rules.refl _) h.world e (ha t c next hi hrest)
      have hworld : rules.inv (s.step program rules.handler (.call i e)).world ∧
          rules.rely s.world (s.step program rules.handler (.call i e)).world := by
        obtain heq | ⟨t, c, next, hi, hrest, heq⟩ := step_world program rules.handler s i e
        · rw [heq]
          exact ⟨h.world, rules.refl _⟩
        · rw [heq]
          obtain ⟨hinv, hg, -⟩ := hcalled t c next hi hrest
          exact ⟨hinv, hguar _ _ _ _ hg⟩
      refine ⟨hworld.1, fun j t' ht' => ?_⟩
      cases step_thread ht' with
      | other hj => exact (h.threads j t' hj).later hworld.2
      | @called t hi hj c next hrest ht =>
          obtain ⟨-, -, hnext⟩ := hcalled t c next hi hrest
          subst ht
          have hw : (s.step program rules.handler (.call i e)).world
              = (rules.handler e c s.world).2 := by
            simp only [Pool.step, hi, Thread.step, hrest]
          rw [hw]
          exact hnext

theorem Sound.run (hguar : ∀ seen c v w, rules.guar seen c v w → rules.rely v w)
    (hprogram : ∀ q w, starts q w → rules.inv w →
      (program q).Safe rules (choices q) (post q) [] w)
    (actions : List (Action Q E))
    (hmeets : Meets (Pool.step program rules.handler) (Allowed starts choices) s actions)
    (h : Sound rules choices post s) :
    Sound rules choices post (runFrom (Pool.step program rules.handler) s actions) :=
  hmeets.invariant (fun _ a ha hs => hs.step hguar hprogram a ha) actions h

/-- How a thread that has ended has ended. -/
theorem Sound.ended (h : Sound rules choices post s) {i : Nat} {t : Thread Q C R α} {a : α}
    (ht : s.threads[i]? = some t) (hrest : t.rest = .done a) :
    post t.request t.history a s.world := by
  have hsafe := h.threads i t ht
  rw [hrest] at hsafe
  exact hsafe s.world (rules.refl _) h.world

/-! ### One after the other -/

/-- Only the program that was started last makes calls. -/
def InTurn (starts : Q → W → Prop) (choices : Q → Choices C R W E) (s : Pool Q C R W α)
    (a : Action Q E) : Prop :=
  Allowed starts choices s a ∧ ∀ i e, a = .call i e → i + 1 = s.threads.length

/-- Calls of the last program. -/
theorem InTurn.calls {handler : E → Handler C R W} {i : Nat} :
    ∀ (es : List E) {s : Pool Q C R W α}, i + 1 = s.threads.length →
      (∀ e ∈ es, ∀ q seen c w, choices q seen c w e) →
      Meets (Pool.step program handler) (InTurn starts choices) s (es.map (.call i))
  | [], _, _, _ => trivial
  | e :: es, s, hi, hes => by
      refine ⟨⟨fun _ _ _ _ _ => hes e List.mem_cons_self _ _ _ _, fun j e' h => ?_⟩, ?_⟩
      · cases h
        exact hi
      · exact InTurn.calls es (hi.trans (length_call program handler s i e).symm)
          fun e' he' => hes e' (List.mem_cons_of_mem _ he')

/-- The last thread is safe where it stands, and all others that have ended
have ended well. -/
structure Turns (rules : Rules C R W E) (choices : Q → Choices C R W E)
    (post : Q → Trace C R → α → W → Prop) (s : Pool Q C R W α) : Prop where
  world : rules.inv s.world
  last : ∀ (i : Nat) t, s.threads[i]? = some t → i + 1 = s.threads.length →
    t.rest.Safe rules (choices t.request) (post t.request) t.history s.world
  ended : ∀ (i : Nat) t a, s.threads[i]? = some t → t.rest = .done a →
    post t.request t.history a s.world

theorem Turns.step
    (hstable : ∀ q seen a seen' c v w, rules.guar seen' c v w → post q seen a v →
      post q seen a w)
    (hprogram : ∀ q w, starts q w → rules.inv w →
      (program q).Safe rules (choices q) (post q) [] w)
    (a : Action Q E) (ha : InTurn starts choices s a) (h : Turns rules choices post s) :
    Turns rules choices post (s.step program rules.handler a) := by
  cases a with
  | start q =>
      have hstart := hprogram q s.world ha.1 h.world
      refine ⟨h.world, fun i t ht hi => ?_, fun i t a ht hrest => ?_⟩
      · obtain ht | ⟨-, rfl⟩ := start_thread ht
        · obtain ⟨hlen, -⟩ := List.getElem?_eq_some_iff.mp ht
          rw [Pool.step, List.length_append, List.length_singleton] at hi
          omega
        · exact hstart
      · obtain ht | ⟨-, rfl⟩ := start_thread ht
        · exact h.ended i t a ht hrest
        · change program q = .done a at hrest
          rw [hrest] at hstart
          exact hstart s.world (rules.refl _) h.world
  | call i e =>
      have hi := ha.2 i e rfl
      have hcalled : ∀ t c next, s.threads[i]? = some t → t.rest = .call c next → _ :=
        fun t c next ht hrest => by
          have hsafe := h.last i t ht hi
          rw [hrest] at hsafe
          exact hsafe s.world (rules.refl _) h.world e (ha.1 t c next ht hrest)
      have hworld : rules.inv (s.step program rules.handler (.call i e)).world ∧
          ∀ q seen a, post q seen a s.world →
            post q seen a (s.step program rules.handler (.call i e)).world := by
        obtain heq | ⟨t, c, next, ht, hrest, heq⟩ := step_world program rules.handler s i e
        · rw [heq]
          exact ⟨h.world, fun _ _ _ hpost => hpost⟩
        · rw [heq]
          obtain ⟨hinv, hg, -⟩ := hcalled t c next ht hrest
          exact ⟨hinv, fun q seen a => hstable q seen a _ _ _ _ hg⟩
      have hnext : ∀ t c next, s.threads[i]? = some t → t.rest = .call c next → _ :=
        fun t c next ht hrest => by
          have hw : (s.step program rules.handler (.call i e)).world
              = (rules.handler e c s.world).2 := by
            simp only [Pool.step, ht, Thread.step, hrest]
          exact hw ▸ (hcalled t c next ht hrest).2.2
      have hlength := length_call program rules.handler s i e
      refine ⟨hworld.1, fun j t' ht' hj => ?_, fun j t' a ht' hrest' => ?_⟩
      · cases step_thread ht' with
        | other hget hor =>
            obtain hne | ⟨a, hrest⟩ := hor
            · omega
            · obtain heq | ⟨t, c, next, ht, hcall, -⟩ :=
                step_world program rules.handler s i e
              · rw [heq]
                exact h.last j t' hget (hlength ▸ hj)
              · have hji : j = i := by omega
                rw [hji, ht] at hget
                rw [← Option.some.inj hget, hcall] at hrest
                cases hrest
        | @called t ht hji c next hrest hthread =>
            subst hthread
            exact hnext t c next ht hrest
      · cases step_thread ht' with
        | other hget hor => exact hworld.2 _ _ _ (h.ended j t' a hget hrest')
        | @called t ht hji c next hrest hthread =>
            have hsafe := hnext t c next ht hrest
            subst hthread
            dsimp only at hrest' ⊢
            rw [hrest'] at hsafe
            exact hsafe _ (rules.refl _) hworld.1

theorem Turns.run
    (hstable : ∀ q seen a seen' c v w, rules.guar seen' c v w → post q seen a v →
      post q seen a w)
    (hprogram : ∀ q w, starts q w → rules.inv w →
      (program q).Safe rules (choices q) (post q) [] w)
    (actions : List (Action Q E))
    (hmeets : Meets (Pool.step program rules.handler) (InTurn starts choices) s actions)
    (h : Turns rules choices post s) :
    Turns rules choices post (runFrom (Pool.step program rules.handler) s actions) :=
  hmeets.invariant (fun _ a ha hs => hs.step hstable hprogram a ha) actions h

/-- A thread stays safe while only it makes calls. -/
theorem alone (hchoices : ∀ q seen c w e, choices q seen c w e) {i : Nat} :
    ∀ (es : List E) {s : Pool Q C R W α} {t : Thread Q C R α}, s.threads[i]? = some t →
      rules.inv s.world → t.rest.Safe rules (choices t.request) (post t.request) t.history s.world →
      ∃ t', (runFrom (Pool.step program rules.handler) s (es.map (.call i))).threads[i]? = some t' ∧
        t'.request = t.request ∧ ∀ a, t'.rest = .done a →
          post t.request t'.history a
            (runFrom (Pool.step program rules.handler) s (es.map (.call i))).world
  | [], s, t, ht, hinv, h => by
      refine ⟨t, ht, rfl, fun a hrest => ?_⟩
      rw [hrest] at h
      exact h s.world (rules.refl _) hinv
  | e :: es, s, t, ht, hinv, h => by
      obtain ⟨hlen, -⟩ := List.getElem?_eq_some_iff.mp ht
      rw [List.map_cons, runFrom_cons]
      have hthread : (s.step program rules.handler (.call i e)).threads[i]?
          = some (t.step (rules.handler e) s.world).1 := by
        simp only [Pool.step, ht, List.getElem?_set_self hlen]
      have hworld : (s.step program rules.handler (.call i e)).world
          = (t.step (rules.handler e) s.world).2 := by
        simp only [Pool.step, ht]
      cases hrest : t.rest with
      | done a =>
          have hsame : t.step (rules.handler e) s.world = (t, s.world) := by
            simp only [Thread.step, hrest]
          rw [hsame] at hthread hworld
          exact alone hchoices es hthread (hworld ▸ hinv) (hworld ▸ h)
      | call c next =>
          rw [hrest] at h
          obtain ⟨hinv', -, hnext⟩ := h s.world (rules.refl _) hinv e (hchoices _ _ _ _ _)
          have hstep : t.step (rules.handler e) s.world
              = (⟨t.request, t.history ++ [⟨c, (rules.handler e c s.world).1⟩],
                  next (rules.handler e c s.world).1⟩, (rules.handler e c s.world).2) := by
            simp only [Thread.step, hrest]
          rw [hstep] at hthread hworld
          have hrun := alone hchoices es hthread (hworld ▸ hinv') (hworld ▸ hnext)
          exact hrun

/-! ### Every program ends -/

section
variable (program) (handler : E → Handler C R W)

/-- What a step leaves of a thread: all of it, unless the step is its call. -/
theorem step_rest {i : Nat} {t : Thread Q C R α} (ht : s.threads[i]? = some t)
    (a : Action Q E) :
    ∃ t', (s.step program handler a).threads[i]? = some t' ∧
      ((t'.rest = t.rest ∧ ((∃ b, t.rest = .done b) ∨ ∀ e, a ≠ .call i e)) ∨
        ∃ c next r, t.rest = .call c next ∧ t'.rest = next r) := by
  obtain ⟨hlen, -⟩ := List.getElem?_eq_some_iff.mp ht
  cases a with
  | start q =>
      refine ⟨t, ?_, .inl ⟨rfl, .inr nofun⟩⟩
      rw [Pool.step, List.getElem?_append_left hlen]
      exact ht
  | call j e =>
      by_cases hj : j = i
      · subst hj
        simp only [Pool.step, ht, List.getElem?_set_self hlen]
        refine ⟨_, rfl, ?_⟩
        cases hrest : t.rest with
        | done b => exact .inl ⟨by simp only [Thread.step, hrest], .inl ⟨b, rfl⟩⟩
        | call c next => exact .inr ⟨c, next, _, rfl, by simp only [Thread.step, hrest]; rfl⟩
      · refine ⟨t, ?_, .inl ⟨rfl, .inr fun e' h => hj (Action.call.inj h).1⟩⟩
        simp only [Pool.step]
        cases s.threads[j]? with
        | none => exact ht
        | some t' => rw [← ht]; exact List.getElem?_set_ne hj

/-- A program that is called again and again ends, whatever the answers are
and whatever runs in between. -/
theorem ends (schedule : Nat → Action Q E) {i : Nat}
    (hfair : ∀ n, ∃ m ≥ n, ∃ e, schedule m = .call i e) :
    ∀ (p : Prog C R α) (n : Nat) (t : Thread Q C R α),
      (runFrom (Pool.step program handler) s ((List.range n).map schedule)).threads[i]? = some t →
      t.rest = p →
      ∃ m t' b,
        (runFrom (Pool.step program handler) s ((List.range m).map schedule)).threads[i]?
          = some t' ∧ t'.rest = .done b := by
  intro p
  induction p with
  | done b => exact fun n t ht hrest => ⟨n, t, b, ht, hrest⟩
  | call c next ih =>
      intro n t ht hrest
      obtain ⟨m, hm, e, he⟩ := hfair n
      obtain ⟨d, rfl⟩ := Nat.exists_eq_add_of_le hm
      clear hm
      -- on the number of steps before the next call of the program
      induction d generalizing n t with
      | zero =>
          obtain ⟨t', ht', ⟨-, hor⟩ | ⟨c', next', r, hcall, hrest'⟩⟩ :=
            step_rest program handler ht (schedule n)
          · obtain ⟨b, hb⟩ | hne := hor
            · rw [hrest] at hb
              cases hb
            · exact absurd he (hne e)
          · rw [hrest] at hcall
            cases hcall
            refine ih r (n + 1) t' ?_ hrest'
            rw [List.range_succ, List.map_append, runFrom_append]
            exact ht'
      | succ d ihd =>
          obtain ⟨t', ht', hor⟩ := step_rest program handler ht (schedule n)
          have hsucc : (runFrom (Pool.step program handler) s
              ((List.range (n + 1)).map schedule)).threads[i]? = some t' := by
            rw [List.range_succ, List.map_append, runFrom_append]
            exact ht'
          obtain ⟨hsame, -⟩ | ⟨c', next', r, hcall, hrest'⟩ := hor
          · exact ihd (n + 1) t' hsucc (hsame.trans hrest)
              (by rw [← he]; congr 1; omega)
          · rw [hrest] at hcall
            cases hcall
            exact ih r (n + 1) t' hsucc hrest'

end

end Pool

end Benchhand.Process
