/-
Benchhand.Process.Lanes — programs one after the other, and side by side.

The programs of one lane take turns, and the lanes share a world. If a lane's
calls are answered by what the lane sees of the world, and what they change no
other lane sees, then a lane sees at any time what it would see if only its own
programs had run, one after the other (`Lanes.call`).
-/
import Benchhand.Process.Steps

namespace Benchhand.Process

variable {K C : Type} {R : C → Type} {W F α : Type}

/-- A program of a lane, how its calls have gone, and what is left of it. -/
structure Strand (K C : Type) (R : C → Type) (F α : Type) where
  lane : K
  program : Prog C R α
  faults : List F
  rest : Prog C R α

/-- It has made no call. -/
def Strand.Waiting (t : Strand K C R F α) : Prop := t.faults = [] ∧ t.rest = t.program

/-- The strand after one more call. -/
def Strand.call (t : Strand K C R F α) (f : F) (rest : Prog C R α) : Strand K C R F α :=
  { t with faults := t.faults ++ [f], rest }

/-! ## One after the other -/

/-- Each program has run from where the one before it is; the worlds in between
are fit. -/
inductive Serial (respond : F → Handler C R W) (fit : W → Prop) :
    W → List (Strand K C R F α) → W → Prop
  | nil {w : W} (hw : fit w) : Serial respond fit w [] w
  | cons {w w' w'' : W} {t : Strand K C R F α} {ts : List (Strand K C R F α)} (hw : fit w)
      (h : Prog.Steps respond t.program w t.faults t.rest w')
      (hs : Serial respond fit w' ts w'') : Serial respond fit w (t :: ts) w''

namespace Serial

variable {respond : F → Handler C R W} {fit : W → Prop} {w w' : W} {f : F}
  {t : Strand K C R F α} {ts ts' : List (Strand K C R F α)}

theorem fit_first (h : Serial respond fit w ts w') : fit w := by
  cases h with
  | nil hw => exact hw
  | cons hw h hs => exact hw

theorem fit_last (h : Serial respond fit w ts w') : fit w' := by
  induction h with
  | nil hw => exact hw
  | cons hw h hs ih => exact ih

theorem append : Serial respond fit w (ts ++ ts') w' ↔
    ∃ m, Serial respond fit w ts m ∧ Serial respond fit m ts' w' := by
  constructor
  · intro h
    induction ts generalizing w with
    | nil =>
        cases h with
        | nil hw => exact ⟨_, .nil hw, .nil hw⟩
        | cons hw h hs => exact ⟨_, .nil hw, .cons hw h hs⟩
    | cons t ts ih =>
        cases h with
        | cons hw h hs =>
            obtain ⟨m, hm, hlast⟩ := ih hs
            exact ⟨m, .cons hw h hm, hlast⟩
  · intro h
    obtain ⟨m, hm, hlast⟩ := h
    induction hm with
    | nil hw => exact hlast
    | cons hw h hs ih => exact .cons hw h (ih hlast)

/-- Programs that wait have done nothing. -/
theorem of_waiting (hw : fit w) (hts : ∀ t ∈ ts, t.Waiting) : Serial respond fit w ts w := by
  induction ts with
  | nil => exact .nil hw
  | cons t ts ih =>
      obtain ⟨⟨hfaults, hrest⟩, hts⟩ := List.forall_mem_cons.mp hts
      exact .cons hw (hfaults ▸ hrest ▸ .nil _ _) (ih hts)

theorem waiting (h : Serial respond fit w ts w') (hts : ∀ t ∈ ts, t.Waiting) : w = w' := by
  induction h with
  | nil hw => rfl
  | cons hw h hs ih =>
      obtain ⟨⟨hfaults, hrest⟩, hts⟩ := List.forall_mem_cons.mp hts
      rw [hfaults] at h
      rw [(Prog.steps_nil.mp h).2]
      exact ih hts

/-- Where the program runs whose turn it is, and one more call of it. -/
theorem call {c : C} {next : R c → Prog C R α}
    (h : Serial respond fit w (ts ++ t :: ts') w') (hrest : t.rest = .call c next)
    (hwait : ∀ t ∈ ts', t.Waiting) :
    ∃ m, fit m ∧ Prog.Steps respond t.program m t.faults (.call c next) w' ∧
      ∀ f, fit (respond f c w').2 → Serial respond fit w
        (ts ++ t.call f (next (respond f c w').1) :: ts') (respond f c w').2 := by
  obtain ⟨m, hm, hlast⟩ := append.mp h
  cases hlast with
  | cons hfit hsteps hs =>
      obtain rfl := hs.waiting hwait
      rw [hrest] at hsteps
      refine ⟨m, hfit, hsteps, fun f hnext => append.mpr ⟨m, hm, ?_⟩⟩
      exact .cons hfit (hsteps.call f) (of_waiting hnext hwait)

end Serial

/-! ## Side by side -/

section
variable [DecidableEq K]

/-- The programs of a lane. -/
def lane (k : K) (ts : List (Strand K C R F α)) : List (Strand K C R F α) :=
  ts.filter fun t => t.lane = k

variable {k : K} {t : Strand K C R F α} {ts ts' : List (Strand K C R F α)}

theorem mem_lane : t ∈ lane k ts ↔ t ∈ ts ∧ t.lane = k := by simp [lane]

theorem lane_append : lane k (ts ++ ts') = lane k ts ++ lane k ts' := List.filter_append ..

theorem lane_cons_self (h : t.lane = k) : lane k (t :: ts) = t :: lane k ts :=
  List.filter_cons_of_pos (decide_eq_true h)

theorem lane_cons_other (h : t.lane ≠ k) : lane k (t :: ts) = lane k ts :=
  List.filter_cons_of_neg (by simpa using h)

/-- A lane sees the world as it would be if only its own programs had run. -/
def Lanes (respond : F → Handler C R W) (fit : W → Prop) (same : K → W → W → Prop) (start : W)
    (ts : List (Strand K C R F α)) (w : W) : Prop :=
  ∀ k, ∃ u, Serial respond fit start (lane k ts) u ∧ same k w u

end

/-- A call of a lane that the lane sees alike in both worlds, and that no other
lane sees. -/
structure Alongside (respond : F → Handler C R W) (fit : W → Prop) (same : K → W → W → Prop)
    (k : K) (f : F) (c : C) (w u : W) : Prop where
  answer : (respond f c w).1 = (respond f c u).1
  others : ∀ k' u', k' ≠ k → same k' w u' → same k' (respond f c w).2 u'
  sees : same k (respond f c w).2 (respond f c u).2
  fits : fit (respond f c u).2

namespace Lanes

variable [DecidableEq K] {respond : F → Handler C R W} {fit : W → Prop} {same : K → W → W → Prop}
  {start w : W} {f : F} {t : Strand K C R F α} {ts ts' : List (Strand K C R F α)}

theorem nil (hfit : fit w) (hsame : ∀ k, same k w w) :
    Lanes respond fit same w ([] : List (Strand K C R F α)) w :=
  fun k => ⟨w, .nil hfit, hsame k⟩

/-- One more program, behind the others of its lane. -/
theorem enter (h : Lanes respond fit same start ts w) (ht : t.Waiting) :
    Lanes respond fit same start (ts ++ [t]) w := by
  intro k
  obtain ⟨u, horder, hsame⟩ := h k
  refine ⟨u, ?_, hsame⟩
  rw [lane_append]
  refine Serial.append.mpr ⟨u, horder, Serial.of_waiting horder.fit_last fun t' ht' => ?_⟩
  obtain rfl := List.mem_singleton.mp (mem_lane.mp ht').1
  exact ht

/-- A call of the program whose turn it is in its lane. -/
theorem call {c : C} {next : R c → Prog C R α} (h : Lanes respond fit same start (ts ++ t :: ts') w)
    (hrest : t.rest = .call c next) (hwait : ∀ t' ∈ ts', t'.lane = t.lane → t'.Waiting)
    (hwithin : ∀ m u, fit m → Prog.Steps respond t.program m t.faults (.call c next) u → fit u →
      same t.lane w u → Alongside respond fit same t.lane f c w u) :
    Lanes respond fit same start (ts ++ t.call f (next (respond f c w).1) :: ts')
      (respond f c w).2 := by
  intro k
  obtain ⟨u, horder, hsame⟩ := h k
  obtain ⟨u₀, horder₀, hsame₀⟩ := h t.lane
  rw [lane_append, lane_cons_self rfl] at horder₀
  obtain ⟨m, hm, hsteps, hcall⟩ := horder₀.call hrest fun t' ht' =>
    hwait t' (mem_lane.mp ht').1 (mem_lane.mp ht').2
  have hown := hwithin m u₀ hm hsteps horder₀.fit_last hsame₀
  rw [lane_append]
  by_cases hk : t.lane = k
  · -- the lane makes the same call
    have hnext (rest : Prog C R α) : (t.call f rest).lane = k := hk
    rw [lane_cons_self (hnext _), hown.answer]
    subst hk
    exact ⟨_, hcall f hown.fits, hown.sees⟩
  · -- another lane does not see it
    refine ⟨u, ?_, hown.others k u (fun h => hk h.symm) hsame⟩
    rw [lane_append, lane_cons_other hk] at horder
    have hnext (rest : Prog C R α) : (t.call f rest).lane ≠ k := hk
    rwa [lane_cons_other (hnext _)]

end Lanes

end Benchhand.Process
