/-
Benchhand.Daemon.StartTheorems — who owns the endpoint, and what a start that
fails has done to the journal.

`Phase.Step` says once what a step of a call can do. `endpoint_kept` is about
any number of starts at once: no live socket is taken and at most one daemon is
ready, on the condition that nobody listens while another call stands between
its probe and its unlink; `endpoint_taken` is a run without it.
`rejected_quiet_iff` says exactly when a call that rejects has left the rows of
operation_journal as they were: it reconciles them before it owns the endpoint.
-/
import Benchhand.Daemon.Start

namespace Benchhand.Daemon

open Text Js Operations Process

variable {config : Config}

/-! ## What a step can do -/

/-- The steps of call `i`: its phases before and after, the endpoint after. -/
inductive Phase.Step (endpoint : Endpoint) (i : Nat) (fault : Option JsError) :
    Phase → Phase → Endpoint → Prop
  | stay (p : Phase) : Step endpoint i fault p p endpoint
  | go {p p' : Phase} (hp : p ≠ .ready) (hready : p' ≠ .ready) (hunlink : p' ≠ .unlink) :
      Step endpoint i fault p p' endpoint
  | inactive (h : ∀ j, endpoint ≠ .socket (some j)) :
      Step endpoint i fault .probe .unlink endpoint
  | unlinked : Step endpoint i fault .unlink .openDatabase .absent
  | listening (h : endpoint = .absent) (hfault : fault = none) :
      Step endpoint i fault .listen .ready (.socket (some i))

theorem advance_step (config : Config) (p : Phase) (i : Nat) (endpoint : Endpoint)
    (journal : Journal) (fault : Option JsError) :
    Phase.Step endpoint i fault p (p.advance config i endpoint journal fault).1
      (p.advance config i endpoint journal fault).2.1 := by
  cases p with
  | called options =>
      simp only [Phase.advance]
      split
      · exact .go nofun nofun nofun
      · split
        · exact .go nofun nofun nofun
        · exact .go nofun nofun nofun
  | inspect =>
      simp only [Phase.advance]
      split
      · exact .go nofun nofun nofun
      · cases endpoint with
        | absent => exact .go nofun nofun nofun
        | occupied => exact .go nofun nofun nofun
        | socket owner => exact .go nofun nofun nofun
  | probe =>
      simp only [Phase.advance]
      split
      · exact .go nofun nofun nofun
      · split
        · exact .go nofun nofun nofun
        · rename_i hdead
          exact .inactive hdead
  | unlink =>
      simp only [Phase.advance]
      split
      · exact .go nofun nofun nofun
      · exact .unlinked
  | reconcile =>
      simp only [Phase.advance]
      split
      · exact .go nofun nofun nofun
      · exact .go nofun nofun nofun
  | listen =>
      simp only [Phase.advance]
      split
      · exact .go nofun nofun nofun
      · by_cases habsent : endpoint = .absent
        · simp only [if_pos habsent]
          exact .listening habsent rfl
        · simp only [if_neg habsent]
          exact .go nofun nofun nofun
  | openDatabase =>
      simp only [Phase.advance]
      split
      · exact .go nofun nofun nofun
      · exact .go nofun nofun nofun
  | openJournal =>
      simp only [Phase.advance]
      split
      · exact .go nofun nofun nofun
      · exact .go nofun nofun nofun
  | openRegistry =>
      simp only [Phase.advance]
      split
      · exact .go nofun nofun nofun
      · exact .go nofun nofun nofun
  | checkIntegrity =>
      simp only [Phase.advance]
      split
      · exact .go nofun nofun nofun
      · exact .go nofun nofun nofun
  | ready => exact .stay _
  | closed => exact .stay _
  | rejected e => exact .stay _
  | dead => exact .stay _

/-! ## The endpoint -/

/-- Calls that have not begun, and the daemon that listens, if one does. -/
structure System.Starting (s : System) : Prop where
  calls : ∀ i p, s.calls[i]? = some p →
    (∃ options, p = .called options) ∨ p = .ready ∧ s.endpoint = .socket (some i)
  owner : ∀ i, s.endpoint = .socket (some i) → s.calls[i]? = some .ready

/-- A step ends the listening of a daemon that is neither closed nor killed by
it. -/
def System.Takes (config : Config) (s : System) (a : Action) : Prop :=
  ∃ j, s.endpoint = .socket (some j) ∧ (s.step config a).endpoint ≠ .socket (some j) ∧
    a ≠ .close j ∧ a ≠ .die j

/-- Nobody listens while a call that found nobody has not unlinked the path. -/
def ListensAlone (s : System) : Action → Prop
  | .advance i fault =>
      fault = none → s.calls[i]? = some .listen → Phase.unlink ∉ s.calls
  | _ => True

instance (s : System) : ∀ a, Decidable (ListensAlone s a)
  | .advance i fault => inferInstanceAs (Decidable
      (fault = none → s.calls[i]? = some .listen → Phase.unlink ∉ s.calls))
  | .start _ => .isTrue trivial
  | .close _ => .isTrue trivial
  | .die _ => .isTrue trivial
  | .operate _ => .isTrue trivial

/-- The ready daemons are the owner of the endpoint, and nobody is about to
unlink a live one. -/
structure Owned (s : System) : Prop where
  ready : ∀ i, s.calls[i]? = some .ready ↔ s.endpoint = .socket (some i)
  kept : Phase.unlink ∈ s.calls → ∀ i, s.endpoint ≠ .socket (some i)

theorem System.Starting.owned {s : System} (h : s.Starting) : Owned s where
  ready i := by
    refine ⟨fun hi => ?_, h.owner i⟩
    obtain ⟨options, hp⟩ | ⟨-, howner⟩ := h.calls i _ hi
    · exact absurd hp (by simp)
    · exact howner
  kept hmem := by
    obtain ⟨i, hi⟩ := List.mem_iff_getElem?.mp hmem
    obtain ⟨options, hp⟩ | ⟨hp, -⟩ := h.calls i _ hi
    · exact absurd hp (by simp)
    · exact absurd hp (by simp)

theorem set_ready_iff {calls : List Phase} {i j : Nat} {p : Phase} (hp : p ≠ .ready) :
    (calls.set i p)[j]? = some .ready ↔ j ≠ i ∧ calls[j]? = some .ready := by
  constructor
  · intro h
    obtain ⟨-, h⟩ | h := getElem?_set_cases h
    · exact absurd h.symm hp
    · exact h
  · intro h
    rw [List.getElem?_set_ne (Ne.symm h.1)]
    exact h.2

theorem mem_of_mem_set_ne {calls : List Phase} {i : Nat} {p q : Phase} (hq : q ∈ calls.set i p)
    (hne : q ≠ p) : q ∈ calls := by
  obtain hq | hq := List.mem_or_eq_of_mem_set hq
  · exact hq
  · exact absurd hq hne

/-- A call that ends takes its socket with it, or leaves it stale. -/
theorem Owned.over {s : System} (h : Owned s) {i : Nat} {p : Phase} {endpoint : Endpoint}
    (hp : p ≠ .ready) (hp' : p ≠ .unlink)
    (hown : s.endpoint = .socket (some i) → ∀ j, endpoint ≠ .socket (some j))
    (hother : s.endpoint ≠ .socket (some i) → endpoint = s.endpoint) :
    Owned { s with endpoint, calls := s.calls.set i p } := by
  by_cases howner : s.endpoint = .socket (some i)
  · refine ⟨fun j => ?_, fun _ => hown howner⟩
    rw [set_ready_iff hp, h.ready, howner]
    refine iff_of_false (fun hj => hj.1 ?_) (hown howner j)
    exact (Option.some.inj (Endpoint.socket.inj hj.2)).symm
  · refine ⟨fun j => ?_, fun hmem => ?_⟩
    · rw [set_ready_iff hp, h.ready, hother howner]
      refine ⟨fun hj => hj.2, fun hj => ⟨fun heq => howner (heq ▸ hj), hj⟩⟩
    · rw [hother howner]
      exact h.kept (mem_of_mem_set_ne hmem (Ne.symm hp'))

/-- A phase that is not about the endpoint keeps it where it is. -/
theorem Owned.go {s : System} (h : Owned s) {i : Nat} {p p' : Phase} (journal : Journal)
    (hcall : s.calls[i]? = some p) (hp : p ≠ .ready) (hready : p' ≠ .ready)
    (hunlink : p' = .unlink → ∀ j, s.endpoint ≠ .socket (some j)) :
    Owned ⟨s.endpoint, journal, s.calls.set i p'⟩ := by
  refine ⟨fun j => ?_, fun hmem => ?_⟩
  · rw [set_ready_iff hready, h.ready]
    refine ⟨fun hj => hj.2, fun hj => ⟨fun heq => hp ?_, hj⟩⟩
    subst heq
    exact Option.some.inj (hcall.symm.trans ((h.ready j).mpr hj))
  · by_cases hp' : p' = .unlink
    · exact hunlink hp'
    · exact h.kept (mem_of_mem_set_ne hmem (Ne.symm hp'))

theorem Owned.advance {s : System} (h : Owned s) {i : Nat} {p p' : Phase} {endpoint : Endpoint}
    (journal : Journal) (hcall : s.calls[i]? = some p) {fault : Option JsError}
    (hstep : Phase.Step s.endpoint i fault p p' endpoint)
    (hlisten : fault = none → p = .listen → Phase.unlink ∉ s.calls) :
    Owned ⟨endpoint, journal, s.calls.set i p'⟩ := by
  cases hstep with
  | stay =>
      have hset : s.calls.set i p = s.calls := by
        obtain ⟨hlt, rfl⟩ := List.getElem?_eq_some_iff.mp hcall
        exact List.set_getElem_self hlt
      rw [hset]
      exact ⟨h.ready, h.kept⟩
  | go hp hready hunlink => exact h.go journal hcall hp hready fun heq => absurd heq hunlink
  | inactive hdead => exact h.go journal hcall nofun nofun fun _ => hdead
  | unlinked =>
      have hdead := h.kept (List.mem_of_getElem? hcall)
      refine ⟨fun j => ?_, fun _ j => nofun⟩
      rw [set_ready_iff (show Phase.openDatabase ≠ .ready from nofun), h.ready]
      exact iff_of_false (fun hj => hdead j hj.2) nofun
  | listening habsent hfault =>
      refine ⟨fun j => ?_, fun hmem => ?_⟩
      · by_cases hj : j = i
        · obtain ⟨hlt, -⟩ := List.getElem?_eq_some_iff.mp hcall
          simp [hj, hlt]
        · have hnot : s.calls[j]? ≠ some .ready := fun hready =>
            absurd (habsent.symm.trans ((h.ready j).mp hready)) nofun
          rw [List.getElem?_set_ne (Ne.symm hj)]
          refine iff_of_false hnot fun heq => hj ?_
          exact (Option.some.inj (Endpoint.socket.inj heq)).symm
      · exact absurd (mem_of_mem_set_ne hmem nofun) (hlisten hfault rfl)

theorem Owned.step {s : System} {a : Action} (h : Owned s) (ha : ListensAlone s a) :
    Owned (s.step config a) := by
  cases a with
  | start options =>
      refine ⟨fun i => ?_, fun hmem => ?_⟩
      · refine Iff.trans ⟨fun hi => ?_, fun hi => ?_⟩ (h.ready i)
        · rw [System.step, List.getElem?_append] at hi
          split at hi
          · exact hi
          · exact absurd (List.mem_singleton.mp (List.mem_of_getElem? hi)) nofun
        · exact List.getElem?_append_left (List.getElem?_eq_some_iff.mp hi).1 ▸ hi
      · obtain hmem | hmem := List.mem_append.mp hmem
        · exact h.kept hmem
        · exact absurd (List.mem_singleton.mp hmem) nofun
  | operate f => exact ⟨h.ready, h.kept⟩
  | close i =>
      rw [System.step]
      split
      · rename_i hready
        have howner := (h.ready i).mp hready
        have habsent : s.endpoint.afterClose config.platform i = .absent :=
          if_neg fun hne => hne.2 howner
        rw [habsent]
        exact h.over nofun nofun (fun _ j => nofun) fun hne => absurd howner hne
      · exact h
  | die i =>
      rw [System.step]
      split
      · exact h
      split
      · exact h
      refine h.over nofun nofun (fun howner j => ?_) fun hne => if_pos hne
      rw [Endpoint.afterDeath, if_neg (not_not.mpr howner)]
      split <;> nofun
  | advance i fault =>
      rw [System.step]
      split
      · exact h
      rename_i p hcall
      have hstep := advance_step config p i s.endpoint s.journal fault
      exact h.advance _ hcall hstep fun hfault hp => ha hfault (hp ▸ hcall)

/-- Only its own daemon ends a live socket. -/
theorem Owned.not_takes {s : System} {a : Action} (h : Owned s) : ¬ s.Takes config a := by
  intro htakes
  obtain ⟨j, hj, hne, hclose, hdie⟩ := htakes
  cases a with
  | start options => exact hne hj
  | operate f => exact hne hj
  | close i =>
      rw [System.step] at hne
      split at hne
      · rename_i hready
        have hi := hj.symm.trans ((h.ready i).mp hready)
        exact hclose (Option.some.inj (Endpoint.socket.inj hi) ▸ rfl)
      · exact hne hj
  | die i =>
      rw [System.step] at hne
      split at hne
      · exact hne hj
      split at hne
      · exact hne hj
      by_cases hi : s.endpoint = .socket (some i)
      · exact hdie (Option.some.inj (Endpoint.socket.inj (hj.symm.trans hi)) ▸ rfl)
      · exact hne ((if_pos hi).trans hj)
  | advance i fault =>
      rw [System.step] at hne
      split at hne
      · exact hne hj
      rename_i p hcall
      have hstep := advance_step config p i s.endpoint s.journal fault
      dsimp only at hne
      generalize (p.advance config i s.endpoint s.journal fault).1 = p' at hstep hne
      generalize (p.advance config i s.endpoint s.journal fault).2.1 = endpoint at hstep hne
      cases hstep with
      | unlinked => exact h.kept (List.mem_of_getElem? hcall) j hj
      | listening habsent => exact absurd (habsent.symm.trans hj) nofun
      | _ => exact hne hj

/-- Any number of starts for one path, in every order in which nobody listens
while another call has found nobody there and not yet unlinked the path: no
live socket is ended by anybody but its own daemon, and at most one daemon is
ready. -/
theorem endpoint_kept (config : Config) {s : System} (hstart : s.Starting) {actions : List Action}
    (hmeets : Meets (System.step config) ListensAlone s actions) :
    Meets (System.step config) (fun s a => ¬ s.Takes config a) s actions ∧
    ∀ i j : Nat, (s.run config actions).calls[i]? = some .ready →
      (s.run config actions).calls[j]? = some .ready → i = j := by
  have hend : Owned (s.run config actions) :=
    Meets.invariant (fun s a ha h => h.step ha) actions hmeets hstart.owned
  refine ⟨Meets.imp (fun s a ha h => ⟨h.step ha, h.not_takes⟩) actions hmeets hstart.owned,
    fun i j hi hj => ?_⟩
  have howner := ((hend.ready i).mp hi).symm.trans ((hend.ready j).mp hj)
  exact Option.some.inj (Endpoint.socket.inj howner)

def linuxConfig : Config := ⟨.linux, js "/run/benchhand.sock"⟩

def stateOptions : StartDaemonOptions := ⟨js "/var/lib/state.sqlite", none⟩

/-- Two calls and a socket that a dead process left. -/
def twoStarts : System :=
  ⟨.socket none, .empty, [.called stateOptions, .called stateOptions]⟩

theorem twoStarts_starting : twoStarts.Starting where
  calls i p hp := by
    refine .inl ⟨stateOptions, ?_⟩
    have hmem : p ∈ [Phase.called stateOptions, .called stateOptions] := List.mem_of_getElem? hp
    simpa using hmem
  owner i := nofun

/-- One call takes the stale path over and the other finds it in use. -/
theorem endpoint_kept_twoStarts :
    let s := twoStarts.run linuxConfig ([0, 0, 0, 0, 0, 0, 0, 0, 0, 0, 1, 1, 1].map fun i =>
      .advance i none)
    s.calls[0]? = some .ready ∧ s.calls[1]? ≠ some .ready :=
  ⟨by decide, fun h => absurd ((endpoint_kept linuxConfig twoStarts_starting (by decide)).2 0 1
    (by decide) h) (by decide)⟩

/-- Both calls find the socket stale. The one that unlinks second takes the
path from the other, which listens by then, and both are ready. -/
theorem endpoint_taken :
    (twoStarts.run linuxConfig ([0, 0, 0, 1, 1, 1, 0, 0, 0, 0, 0, 0, 0, 1, 1, 1, 1, 1, 1, 1].map
      fun i => .advance i none)).calls = [.ready, .ready] ∧
    (twoStarts.run linuxConfig ([0, 0, 0, 1, 1, 1, 0, 0, 0, 0, 0, 0, 0].map fun i =>
      .advance i none)).Takes linuxConfig (.advance 1 none) := by
  refine ⟨by decide, 0, by decide, by decide, nofun, nofun⟩

/-! ## The journal -/

/-- No operation is accepted or running. -/
def Idle (journal : Journal) : Prop :=
  ∀ key row, journal.find? key = some row → row.state ≠ .accepted ∧ row.state ≠ .running

/-- The reconciliation leaves the rows as they are just when there is nothing
to reconcile. -/
theorem reconcile_unchanged_iff (journal : Journal) :
    (∀ key, (journal.reconcileInterrupted none).2.find? key = journal.find? key) ↔
      Idle journal := by
  have hfind : ∀ key, (journal.reconcileInterrupted none).2.find? key =
      (journal.find? key).map fun row =>
        if row.state == .accepted || row.state == .running then
          { row with state := .unknownNeedsReconcile, version := row.version + 1 }
        else row :=
    Store.Table.find?_updateWhere journal
      (fun _ row => row.state == .accepted || row.state == .running)
      fun row => { row with state := .unknownNeedsReconcile, version := row.version + 1 }
  constructor
  · intro h key row hrow
    have hkey := h key
    rw [hfind, hrow, Option.map_some, Option.some.injEq] at hkey
    split at hkey
    · have hversion := congrArg Row.version hkey
      dsimp only at hversion
      omega
    · rename_i hstate
      simpa [not_or] using hstate
  · intro h key
    rw [hfind]
    cases hrow : journal.find? key with
    | none => rfl
    | some row =>
        have hstate := h key row hrow
        simp [hstate.1, hstate.2]

/-- A step of a call changes the journal by its reconciliation only. -/
theorem advance_journal (p : Phase) (i : Nat) (endpoint : Endpoint) (journal : Journal)
    (fault : Option JsError) :
    (p.advance config i endpoint journal fault).2.2 =
      if p = .reconcile ∧ fault = none then (journal.reconcileInterrupted none).2 else journal := by
  cases p with
  | reconcile =>
      cases fault with
      | none => rfl
      | some e => rfl
  | called options =>
      rw [if_neg fun h => absurd h.1 nofun]
      simp only [Phase.advance]
      split <;> rfl
  | inspect =>
      rw [if_neg fun h => absurd h.1 nofun]
      cases fault with
      | some e => rfl
      | none => cases endpoint <;> rfl
  | probe =>
      rw [if_neg fun h => absurd h.1 nofun]
      simp only [Phase.advance]
      split
      · rfl
      · split <;> rfl
  | listen =>
      rw [if_neg fun h => absurd h.1 nofun]
      simp only [Phase.advance]
      split
      · rfl
      · split <;> rfl
  | ready => rfl
  | closed => rfl
  | rejected e => rfl
  | dead => rfl
  | _ =>
      rw [if_neg fun h => absurd h.1 nofun]
      cases fault <;> rfl

/-- The step is one of call `c`, and changes no row of operation_journal. -/
def LeavesRows (config : Config) (c : Nat) (s : System) (a : Action) : Prop :=
  ∀ fault, a = .advance c fault →
    ∀ key, (s.step config a).journal.find? key = s.journal.find? key

/-- Where call `c` reconciles, there is nothing to reconcile. -/
def ReconcilesIdle (c : Nat) (s : System) (a : Action) : Prop :=
  a = .advance c none → s.calls[c]? = some .reconcile → Idle s.journal

theorem leavesRows_iff (c : Nat) (s : System) (a : Action) :
    LeavesRows config c s a ↔ ReconcilesIdle c s a := by
  have hstep : ∀ fault, (s.step config (.advance c fault)).journal =
      if s.calls[c]? = some .reconcile ∧ fault = none then
        (s.journal.reconcileInterrupted none).2
      else s.journal := by
    intro fault
    cases hcall : s.calls[c]? with
    | none => simp [System.step, hcall]
    | some p => simpa [System.step, hcall] using advance_journal p c s.endpoint s.journal fault
  constructor
  · intro h ha hcall
    have hrows := h none ha
    rw [ha, hstep, if_pos ⟨hcall, rfl⟩] at hrows
    exact (reconcile_unchanged_iff s.journal).mp hrows
  · intro h fault ha key
    rw [ha, hstep]
    split
    · rename_i hreconcile
      obtain ⟨hcall, rfl⟩ := hreconcile
      exact (reconcile_unchanged_iff s.journal).mpr (h ha hcall) key
    · rfl

/-- Call `c` does not reject, or has changed no row in the run. -/
def FailsQuietly (config : Config) (c : Nat) (s : System) (actions : List Action) : Prop :=
  (∃ e, (s.run config actions).calls[c]? = some (.rejected e)) →
    Meets (System.step config) (LeavesRows config c) s actions

/-- A call that rejects, among other calls and while daemons work on their
operations, has left every row as it was just when no operation was accepted or
running where it reconciled the journal, or it was rejected before. -/
theorem failsQuietly_iff (config : Config) (c : Nat) (s : System) (actions : List Action) :
    FailsQuietly config c s actions ↔
      ((∃ e, (s.run config actions).calls[c]? = some (.rejected e)) →
        Meets (System.step config) (ReconcilesIdle c) s actions) :=
  forall_congr' fun _ => Meets.congr (leavesRows_iff c) actions s

/-- A daemon on Windows that has listened, and one operation it is running. -/
def runningDaemon : System where
  endpoint := .socket (some 0)
  journal := ⟨[(js "op_1", ⟨js "fs.write", js "sha", .running, none, none, 1⟩)],
    List.nodup_singleton _⟩
  calls := [.ready, .called stateOptions]

def pipeConfig : Config := ⟨.win32, js "benchhand"⟩

/-- The second start is rejected because the pipe is in use, and the operation
of the first daemon needs to be reconciled. -/
theorem second_start_reconciles :
    ¬ FailsQuietly pipeConfig 1 runningDaemon
      ([1, 1, 1, 1, 1, 1, 1].map fun i => .advance i none) := by
  intro h
  have hleaves := h ⟨.addressInUse, by decide⟩
  have hrow := hleaves.2.2.2.1 none rfl (js "op_1")
  exact absurd hrow (by decide)

end Benchhand.Daemon
