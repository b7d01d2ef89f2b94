import Mathlib.Data.Option.Basic
import Mathlib.Data.List.Basic

/-!
# Partial machines driven by a schedule

A machine is a partial step function: a label names the next action together
with every choice it leaves open, and a label that is not enabled has no
successor. A schedule is a finite list of labels, so the interleavings of
several parties are the schedules of one machine, and every state any
interleaving reaches is the end of some schedule.

One induction principle carries the developments built on this file: an
invariant kept by each enabled step that meets a guard holds at the end of every
schedule whose steps all meet it, and so one kept by each enabled step holds at
the end of every schedule.
Further rules relate the end of a schedule to the labels taken on the way, and
transport runs along a projection of the state that turns every concrete step into
a schedule of the projected machine.
-/

namespace Schedules

universe u v w x
variable {σ : Type u} {ε : Type v} {τ : Type w} {δ : Type x}

/-- Take the labels in order; a label that is not enabled ends the run. -/
def run (step : σ → ε → Option σ) : σ → List ε → Option σ
  | state, [] => some state
  | state, label :: rest => (step state label).bind (fun next => run step next rest)

@[simp] theorem run_nil (step : σ → ε → Option σ) (state : σ) : run step state [] = some state :=
  rfl

/-- A completed nonempty run exposes its first step. -/
theorem run_cons_iff (step : σ → ε → Option σ) (state final : σ) (label : ε) (rest : List ε) :
    run step state (label :: rest) = some final ↔
      ∃ next, step state label = some next ∧ run step next rest = some final := by
  simp [run, Option.bind_eq_some_iff]

/-- Running two schedules one after the other is running their concatenation. -/
theorem run_append (step : σ → ε → Option σ) (state : σ) (first second : List ε) :
    run step state (first ++ second) =
      (run step state first).bind (fun middle => run step middle second) := by
  induction first generalizing state with
  | nil => rfl
  | cons label rest ih =>
    simp only [List.cons_append, run]
    cases step state label with
    | none => rfl
    | some next => exact ih next

/-- A relation between the state and the labels taken so far that each enabled
step keeps relates the end of every schedule to the schedule. -/
theorem run_history_invariant {step : σ → ε → Option σ} {invariant : List ε → σ → Prop}
    (preserved : ∀ past state label next, invariant past state → step state label = some next →
      invariant (past ++ [label]) next)
    {state final : σ} {past schedule : List ε} (initial : invariant past state)
    (completed : run step state schedule = some final) : invariant (past ++ schedule) final := by
  induction schedule generalizing past state with
  | nil =>
    rw [List.append_nil]
    exact Option.some.inj completed ▸ initial
  | cons label rest ih =>
    obtain ⟨next, taken, following⟩ := (run_cons_iff step state final label rest).mp completed
    rw [List.append_cons]
    exact ih (preserved past state label next initial taken) following

/-- Every step of the schedule is taken in a state where the guard admits it. -/
def Along (step : σ → ε → Option σ) (guard : σ → ε → Prop) : σ → List ε → Prop
  | _, [] => True
  | state, label :: rest =>
    guard state label ∧ ∀ next, step state label = some next → Along step guard next rest

/-- Whether a decidable guard is met along a schedule is found by running it. -/
instance decidableAlong (step : σ → ε → Option σ) (guard : σ → ε → Prop)
    [∀ state label, Decidable (guard state label)] :
    ∀ state schedule, Decidable (Along step guard state schedule)
  | _, [] => inferInstanceAs (Decidable True)
  | state, label :: rest =>
    match taken : step state label with
    | none => decidable_of_iff (guard state label) (by simp [Along, taken])
    | some next =>
      have := decidableAlong step guard next rest
      decidable_of_iff (guard state label ∧ Along step guard next rest) (by simp [Along, taken])

/-- A guard that never looks at the state is a condition on each label. -/
theorem along_of_forall {step : σ → ε → Option σ} {guard : ε → Prop} {state : σ}
    {schedule : List ε} (admitted : ∀ label ∈ schedule, guard label) :
    Along step (fun _ => guard) state schedule := by
  induction schedule generalizing state with
  | nil => trivial
  | cons label rest ih =>
    refine ⟨admitted label List.mem_cons_self, fun next _ => ih ?_⟩
    exact fun other member => admitted other (List.mem_cons_of_mem label member)

/-- Two guards met along a schedule are met together. -/
theorem along_and {step : σ → ε → Option σ} {first second : σ → ε → Prop} {state : σ}
    {schedule : List ε} (meets : Along step first state schedule)
    (also : Along step second state schedule) :
    Along step (fun state label => first state label ∧ second state label) state schedule := by
  induction schedule generalizing state with
  | nil => trivial
  | cons label rest ih =>
    exact ⟨⟨meets.1, also.1⟩, fun next taken => ih (meets.2 next taken) (also.2 next taken)⟩

/-- A guard met along a schedule is met along its start. -/
theorem along_start {step : σ → ε → Option σ} {guard : σ → ε → Prop} {state : σ}
    {earlier later : List ε} (meets : Along step guard state (earlier ++ later)) :
    Along step guard state earlier := by
  induction earlier generalizing state with
  | nil => trivial
  | cons label rest ih => exact ⟨meets.1, fun next taken => ih (meets.2 next taken)⟩

/-- A completed run meets the guard along its schedule or has a first step that
does not. -/
theorem along_or_fails {step : σ → ε → Option σ} (guard : σ → ε → Prop) {state final : σ}
    {schedule : List ε} (completed : run step state schedule = some final) :
    Along step guard state schedule ∨
      ∃ earlier label later middle next, schedule = earlier ++ label :: later ∧
        run step state earlier = some middle ∧ ¬ guard middle label ∧
        step middle label = some next ∧ run step next later = some final := by
  induction schedule generalizing state with
  | nil => exact Or.inl trivial
  | cons label rest ih =>
    obtain ⟨next, taken, following⟩ := (run_cons_iff step state final label rest).mp completed
    by_cases admitted : guard state label
    · rcases ih following with meets | ⟨earlier, other, later, middle, after, rfl, ran, fails⟩
      · refine Or.inl ⟨admitted, fun another same => ?_⟩
        obtain rfl : next = another := Option.some.inj (taken.symm.trans same)
        exact meets
      · refine Or.inr ⟨label :: earlier, other, later, middle, after, rfl, ?_, fails⟩
        exact (run_cons_iff step state middle label earlier).mpr ⟨next, taken, ran⟩
    · exact Or.inr ⟨[], label, rest, state, next, rfl, rfl, admitted, taken, following⟩

/-- A property kept by every enabled step that meets the guard holds at the end
of every schedule all of whose steps meet it. -/
theorem run_guarded_invariant {step : σ → ε → Option σ} {guard : σ → ε → Prop}
    {invariant : σ → Prop}
    (preserved : ∀ state label next, invariant state → guard state label →
      step state label = some next → invariant next)
    {state final : σ} {schedule : List ε} (initial : invariant state)
    (guarded : Along step guard state schedule)
    (completed : run step state schedule = some final) : invariant final := by
  induction schedule generalizing state with
  | nil => exact Option.some.inj completed ▸ initial
  | cons label rest ih =>
    obtain ⟨next, taken, following⟩ := (run_cons_iff step state final label rest).mp completed
    exact ih (preserved state label next initial guarded.1 taken) (guarded.2 next taken) following

/-- A property kept by every enabled step holds at the end of every schedule: the
guard that admits every step is met along it. -/
theorem run_invariant {step : σ → ε → Option σ} {invariant : σ → Prop}
    (preserved : ∀ state label next, invariant state → step state label = some next →
      invariant next)
    {state final : σ} {schedule : List ε} (initial : invariant state)
    (completed : run step state schedule = some final) : invariant final := by
  have unguarded (state : σ) (label : ε) (next : σ) (holds : invariant state) (_ : True)
      (taken : step state label = some next) : invariant next :=
    preserved state label next holds taken
  exact run_guarded_invariant unguarded initial (along_of_forall fun _ _ => trivial) completed

/-- When each concrete step from a state that meets an invariant projects to a
schedule of admitted labels of the abstract machine, so does a run. -/
theorem run_projects_admitted {step : σ → ε → Option σ} {abstractStep : τ → δ → Option τ}
    {invariant : σ → Prop} {admits : δ → Prop} (project : σ → τ)
    (preserved : ∀ state label next, invariant state → step state label = some next →
      invariant next)
    (simulated : ∀ state label next, invariant state → step state label = some next →
      ∃ schedule, (∀ other ∈ schedule, admits other) ∧
        run abstractStep (project state) schedule = some (project next))
    {state final : σ} {schedule : List ε} (initial : invariant state)
    (completed : run step state schedule = some final) :
    ∃ abstractSchedule, (∀ other ∈ abstractSchedule, admits other) ∧
      run abstractStep (project state) abstractSchedule = some (project final) := by
  induction schedule generalizing state with
  | nil => exact ⟨[], by simp, by rw [run_nil, Option.some.inj completed]⟩
  | cons label rest ih =>
    obtain ⟨next, taken, following⟩ := (run_cons_iff step state final label rest).mp completed
    obtain ⟨first, firstAdmitted, firstRun⟩ := simulated state label next initial taken
    obtain ⟨second, secondAdmitted, secondRun⟩ :=
      ih (preserved state label next initial taken) following
    refine ⟨first ++ second, ?_, ?_⟩
    · intro other member
      exact (List.mem_append.mp member).elim (firstAdmitted other) (secondAdmitted other)
    · rw [run_append, firstRun, Option.bind_some, secondRun]

/-- The projection of a run is an abstract run. -/
theorem run_projects {step : σ → ε → Option σ} {abstractStep : τ → δ → Option τ}
    {invariant : σ → Prop} (project : σ → τ)
    (preserved : ∀ state label next, invariant state → step state label = some next →
      invariant next)
    (simulated : ∀ state label next, invariant state → step state label = some next →
      ∃ schedule, run abstractStep (project state) schedule = some (project next))
    {state final : σ} {schedule : List ε} (initial : invariant state)
    (completed : run step state schedule = some final) :
    ∃ abstractSchedule, run abstractStep (project state) abstractSchedule =
      some (project final) := by
  have unconditional (state : σ) (label : ε) (next : σ) (holds : invariant state)
      (taken : step state label = some next) : ∃ schedule, (∀ other ∈ schedule, True) ∧
        run abstractStep (project state) schedule = some (project next) := by
    obtain ⟨schedule, ran⟩ := simulated state label next holds taken
    exact ⟨schedule, fun _ _ => trivial, ran⟩
  obtain ⟨abstractSchedule, _, ran⟩ :=
    run_projects_admitted project preserved unconditional initial completed
  exact ⟨abstractSchedule, ran⟩

/-- Where related states stay related when each step of one machine is matched by a
schedule of the other, every run is matched by a run. -/
theorem run_related {step : σ → ε → Option σ} {abstractStep : τ → δ → Option τ}
    {related : σ → τ → Prop}
    (simulated : ∀ state label next matching, related state matching →
      step state label = some next → ∃ schedule after,
        run abstractStep matching schedule = some after ∧ related next after)
    {state final : σ} {matching : τ} {schedule : List ε} (initial : related state matching)
    (completed : run step state schedule = some final) :
    ∃ abstractSchedule after, run abstractStep matching abstractSchedule = some after ∧
      related final after := by
  induction schedule generalizing state matching with
  | nil =>
    obtain rfl := Option.some.inj completed
    exact ⟨[], matching, rfl, initial⟩
  | cons label rest ih =>
    obtain ⟨next, taken, following⟩ := (run_cons_iff step state final label rest).mp completed
    obtain ⟨front, middle, started, kept⟩ := simulated state label next matching initial taken
    obtain ⟨back, after, ended, holds⟩ := ih kept following
    refine ⟨front ++ back, after, ?_, holds⟩
    rw [run_append, started, Option.bind_some, ended]

end Schedules
