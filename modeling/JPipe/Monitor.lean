import JPipe.Schedules
import Mathlib.Data.Option.Basic
import Mathlib.Logic.Function.Basic

/-!
# Threads over one mutex, with cancellation

Each thread runs a program: at every point it takes a step of its own, locks or
unlocks the mutex, waits on a condition, asks for the cancellation of a thread,
joins one, or exits. The mutex blocks everybody while it has an owner, the owner
included. A wait gives the mutex up; a waiting thread may wake up at any time, with
or without a signal, and takes the mutex again before it goes on. So a signal does
nothing that the model has to say.

A thread acts on its cancellation at a point that allows it, or in a wait. It goes
to its cleanup handler; from a wait it takes the mutex again first.

A labelling says at which points a thread is inside of a section. A program that
respects one keeps the owner and the sections in agreement as long as nobody acts on
a cancellation in a wait: the handler then starts outside of the section although
the thread owns the mutex.
-/

namespace Monitor

universe u v w x
variable {ι : Type u} {σ : Type v} {ρ : Type w} {ε : Type x}

/-- What a thread does at a point of its program. -/
inductive Action (ι : Type u) (σ : Type v) (ρ : Type w) where
  | step (shared : σ) (next : ρ)
  | lock (next : ρ)
  | unlock (next : ρ)
  | wait (next : ρ)
  | cancel (target : ι) (next : ρ)
  | join (target : ι) (next : ρ)
  | exit

/-- The actions, given the choices a program leaves open, the points where a thread
may act on its cancellation, and the start of its handler. -/
structure Program (ι : Type u) (σ : Type v) (ρ : Type w) (ε : Type x) where
  act : σ → ρ → ε → Option (Action ι σ ρ)
  cancellable : ρ → Bool
  handler : ρ

/-- Where a thread stands: at a point, waiting without or with the intention to go
on, or past its end. -/
inductive Standing (ρ : Type w) where
  | running (point : ρ)
  | asleep (next : ρ)
  | waking (next : ρ)
  | ended
deriving DecidableEq

/-- The shared variables, the mutex, the threads and the cancellations asked for. -/
structure State (ι : Type u) (σ : Type v) (ρ : Type w) where
  shared : σ
  owner : Option ι
  standing : ι → Standing ρ
  requested : ι → Bool

/-- A thread runs, wakes up, or acts on its cancellation. -/
inductive Label (ι : Type u) (ε : Type x) where
  | run (thread : ι) (choice : ε)
  | wake (thread : ι)
  | cancelled (thread : ι)

variable [DecidableEq ι]

/-- The thread stands elsewhere. -/
def State.stand (state : State ι σ ρ) (thread : ι) (standing : Standing ρ) : State ι σ ρ :=
  { state with standing := Function.update state.standing thread standing }

/-- The thread takes the free mutex. -/
def State.acquire (state : State ι σ ρ) (thread : ι) (next : ρ) : Option (State ι σ ρ) :=
  if state.owner = none then
    some { state.stand thread (.running next) with owner := some thread }
  else none

/-- The owner gives the mutex up. -/
def State.release (state : State ι σ ρ) (thread : ι) (standing : Standing ρ) :
    Option (State ι σ ρ) :=
  if state.owner = some thread then some { state.stand thread standing with owner := none }
  else none

/-- A thread has ended. -/
def Standing.hasEnded : Standing ρ → Bool
  | .ended => true
  | _ => false

/-- What an action does. -/
def State.perform (state : State ι σ ρ) (thread : ι) : Action ι σ ρ → Option (State ι σ ρ)
  | .step shared next => some { state.stand thread (.running next) with shared := shared }
  | .lock next => state.acquire thread next
  | .unlock next => state.release thread (.running next)
  | .wait next => state.release thread (.asleep next)
  | .cancel target next =>
    some { state.stand thread (.running next) with
      requested := Function.update state.requested target true }
  | .join target next =>
    if (state.standing target).hasEnded then some (state.stand thread (.running next)) else none
  | .exit => some (state.stand thread .ended)

/-- The thread takes its next step. -/
def Program.run (program : Program ι σ ρ ε) (state : State ι σ ρ) (thread : ι) (choice : ε) :
    Option (State ι σ ρ) :=
  match state.standing thread with
  | .running point => (program.act state.shared point choice).bind (state.perform thread)
  | .waking next => state.acquire thread next
  | .asleep _ | .ended => none

/-- A waiting thread wakes up. -/
def State.wake (state : State ι σ ρ) (thread : ι) : Option (State ι σ ρ) :=
  match state.standing thread with
  | .asleep next => some (state.stand thread (.waking next))
  | _ => none

/-- A thread that was asked to acts on its cancellation. -/
def Program.cancelled (program : Program ι σ ρ ε) (state : State ι σ ρ) (thread : ι) :
    Option (State ι σ ρ) :=
  if state.requested thread then
    let heard := { state with requested := Function.update state.requested thread false }
    match state.standing thread with
    | .running point =>
      if program.cancellable point then some (heard.stand thread (.running program.handler))
      else none
    | .asleep _ => some (heard.stand thread (.waking program.handler))
    | .waking _ | .ended => none
  else none

/-- One step of one thread. -/
def Program.step (program : Program ι σ ρ ε) (state : State ι σ ρ) :
    Label ι ε → Option (State ι σ ρ)
  | .run thread choice => program.run state thread choice
  | .wake thread => state.wake thread
  | .cancelled thread => program.cancelled state thread

/-! ### Sections -/

/-- An action that respects the labelling of the points inside of a section. -/
def Action.Fits (inside : ρ → Bool) (point : ρ) : Action ι σ ρ → Prop
  | .step _ next | .cancel _ next | .join _ next => inside next = inside point
  | .lock next => inside point = false ∧ inside next = true
  | .unlock next => inside point = true ∧ inside next = false
  | .wait next => inside point = true ∧ inside next = true
  | .exit => inside point = false

/-- A program that respects the labelling, and handlers outside of the sections. -/
structure Labelled (program : Program ι σ ρ ε) (inside : ρ → Bool) : Prop where
  acts : ∀ shared point choice action, program.act shared point choice = some action →
    action.Fits inside point
  cancels : ∀ point, program.cancellable point = true → inside point = false
  handles : inside program.handler = false

/-- A thread inside of a section. -/
def Standing.within (inside : ρ → Bool) : Standing ρ → Bool
  | .running point => inside point
  | .asleep _ | .waking _ | .ended => false

/-- Where a thread goes on after a wait. -/
def Standing.resumes : Standing ρ → Option ρ
  | .asleep next | .waking next => some next
  | .running _ | .ended => none

/-- The owner is the thread inside of a section, and waits end inside of one. -/
structure Disciplined (inside : ρ → Bool) (state : State ι σ ρ) : Prop where
  owner : ∀ thread, state.owner = some thread ↔ (state.standing thread).within inside = true
  resumes : ∀ thread next, (state.standing thread).resumes = some next → inside next = true

/-- A thread that waits and has not been woken. -/
def Standing.waits : Standing ρ → Bool
  | .asleep _ => true
  | .running _ | .waking _ | .ended => false

/-- No thread acts on its cancellation in a wait. -/
def State.Spares (state : State ι σ ρ) : Label ι ε → Prop
  | .cancelled thread => (state.standing thread).waits = false
  | .run _ _ | .wake _ => True

instance (state : State ι σ ρ) (label : Label ι ε) : Decidable (state.Spares label) := by
  unfold State.Spares
  split <;> infer_instance

/-- Nobody waits for the mutex while owning it, or has ended as its owner. -/
structure Safe (program : Program ι σ ρ ε) (state : State ι σ ρ) : Prop where
  locking : ∀ thread point choice next, state.standing thread = .running point →
    program.act state.shared point choice = some (.lock next) → state.owner ≠ some thread
  waking : ∀ thread next, state.standing thread = .waking next → state.owner ≠ some thread
  ended : ∀ thread, state.standing thread = .ended → state.owner ≠ some thread

omit [DecidableEq ι] in
/-- The discipline keeps everybody safe. -/
theorem disciplined_safe {program : Program ι σ ρ ε} {inside : ρ → Bool} {state : State ι σ ρ}
    (labelled : Labelled program inside) (disciplined : Disciplined inside state) :
    Safe program state := by
  have outside (thread : ι) (out : (state.standing thread).within inside = false) :
      state.owner ≠ some thread := by
    intro owns
    rw [(disciplined.owner thread).mp owns] at out
    exact absurd out (by decide)
  constructor
  · intro thread point choice next standing locks
    apply outside thread
    rw [standing]
    exact (labelled.acts _ point choice _ locks).1
  · intro thread next standing
    exact outside thread (by rw [standing]; rfl)
  · intro thread standing
    exact outside thread (by rw [standing]; rfl)

/-- One thread moves; the mutex agrees with where it stands now and with the others. -/
theorem moved_disciplined {inside : ρ → Bool} {state next : State ι σ ρ} (thread : ι)
    (standing : Standing ρ) (disciplined : Disciplined inside state)
    (moved : next.standing = Function.update state.standing thread standing)
    (others : ∀ other, other ≠ thread → (next.owner = some other ↔ state.owner = some other))
    (self : next.owner = some thread ↔ standing.within inside = true)
    (resumes : ∀ point, standing.resumes = some point → inside point = true) :
    Disciplined inside next := by
  constructor
  · intro other
    by_cases same : other = thread
    · subst same
      rw [moved, Function.update_self]
      exact self
    · rw [moved, Function.update_of_ne same, others other same]
      exact disciplined.owner other
  · intro other point
    by_cases same : other = thread
    · subst same
      rw [moved, Function.update_self]
      exact resumes point
    · rw [moved, Function.update_of_ne same]
      exact disciplined.resumes other point

/-- A thread that leaves the mutex alone stays inside or outside. -/
theorem stand_disciplined {inside : ρ → Bool} {state next : State ι σ ρ} (thread : ι)
    (standing : Standing ρ) (disciplined : Disciplined inside state)
    (moved : next.standing = Function.update state.standing thread standing)
    (kept : next.owner = state.owner)
    (same : standing.within inside = (state.standing thread).within inside)
    (resumes : ∀ point, standing.resumes = some point → inside point = true) :
    Disciplined inside next := by
  refine moved_disciplined thread standing disciplined moved ?_ ?_ resumes
  · intro other _
    rw [kept]
  · rw [kept, same]
    exact disciplined.owner thread

/-- The thread that takes the mutex goes inside. -/
theorem acquire_disciplined {inside : ρ → Bool} {state after : State ι σ ρ} {thread : ι}
    {next : ρ} (disciplined : Disciplined inside state) (enters : inside next = true)
    (taken : state.acquire thread next = some after) : Disciplined inside after := by
  rw [State.acquire] at taken
  split at taken
  · rename_i free
    obtain rfl := Option.some.inj taken
    refine moved_disciplined thread (.running next) disciplined rfl ?_ ?_ ?_
    · intro other apart
      simp [free, apart.symm]
    · simp [Standing.within, enters]
    · simp [Standing.resumes]
  · simp at taken

/-- The thread that gives the mutex up goes outside. -/
theorem release_disciplined {inside : ρ → Bool} {state after : State ι σ ρ} (thread : ι)
    (standing : Standing ρ) (disciplined : Disciplined inside state)
    (leaves : standing.within inside = false)
    (resumes : ∀ point, standing.resumes = some point → inside point = true)
    (taken : state.release thread standing = some after) : Disciplined inside after := by
  rw [State.release] at taken
  split at taken
  · rename_i owns
    obtain rfl := Option.some.inj taken
    refine moved_disciplined thread standing disciplined rfl ?_ ?_ resumes
    · intro other apart
      simp [owns, apart.symm]
    · simp [leaves]
  · simp at taken

/-- An action that respects the labelling keeps the discipline. -/
theorem perform_disciplined {inside : ρ → Bool} {state next : State ι σ ρ} {thread : ι}
    {point : ρ} {action : Action ι σ ρ} (disciplined : Disciplined inside state)
    (standing : state.standing thread = .running point) (fits : action.Fits inside point)
    (taken : state.perform thread action = some next) : Disciplined inside next := by
  have within : (state.standing thread).within inside = inside point := by
    rw [standing]
    rfl
  cases action with
  | step shared after =>
    obtain rfl := Option.some.inj taken
    refine stand_disciplined thread (.running after) disciplined rfl rfl ?_ ?_
    · exact Eq.trans fits within.symm
    · simp [Standing.resumes]
  | lock after => exact acquire_disciplined disciplined fits.2 taken
  | unlock after =>
    exact release_disciplined thread (.running after) disciplined fits.2 (by simp [Standing.resumes]) taken
  | wait after =>
    refine release_disciplined thread (.asleep after) disciplined rfl ?_ taken
    intro place resumed
    obtain rfl := Option.some.inj resumed
    exact fits.2
  | cancel target after =>
    obtain rfl := Option.some.inj taken
    refine stand_disciplined thread (.running after) disciplined rfl rfl ?_ ?_
    · exact Eq.trans fits within.symm
    · simp [Standing.resumes]
  | join target after =>
    rw [State.perform] at taken
    split at taken
    · obtain rfl := Option.some.inj taken
      refine stand_disciplined thread (.running after) disciplined rfl rfl ?_ ?_
      · exact Eq.trans fits within.symm
      · simp [Standing.resumes]
    · simp at taken
  | exit =>
    obtain rfl := Option.some.inj taken
    refine stand_disciplined thread .ended disciplined rfl rfl ?_ ?_
    · exact Eq.trans (Eq.symm fits) within.symm
    · simp [Standing.resumes]

/-- Every step that spares the waits keeps the discipline. -/
theorem step_disciplined {program : Program ι σ ρ ε} {inside : ρ → Bool}
    (labelled : Labelled program inside) {state next : State ι σ ρ} {label : Label ι ε}
    (disciplined : Disciplined inside state) (spares : state.Spares label)
    (taken : program.step state label = some next) : Disciplined inside next := by
  cases label with
  | run thread choice =>
    rw [Program.step, Program.run] at taken
    split at taken
    · rename_i point standing
      obtain ⟨action, acts, performed⟩ := Option.bind_eq_some_iff.mp taken
      exact perform_disciplined disciplined standing (labelled.acts _ point choice action acts)
        performed
    · rename_i after standing
      refine acquire_disciplined disciplined ?_ taken
      exact disciplined.resumes thread after (by rw [standing]; rfl)
    · simp at taken
    · simp at taken
  | wake thread =>
    rw [Program.step, State.wake] at taken
    split at taken
    · rename_i after standing
      obtain rfl := Option.some.inj taken
      refine stand_disciplined thread (.waking after) disciplined rfl rfl ?_ ?_
      · rw [standing]
        rfl
      · intro point resumed
        apply disciplined.resumes thread point
        rw [standing]
        exact resumed
    · simp at taken
  | cancelled thread =>
    rw [Program.step, Program.cancelled] at taken
    split at taken
    · split at taken
      · rename_i point standing
        split at taken
        · rename_i cancellable
          obtain rfl := Option.some.inj taken
          refine stand_disciplined thread (.running program.handler) disciplined rfl rfl ?_ ?_
          · rw [standing]
            exact labelled.handles.trans (labelled.cancels point cancellable).symm
          · simp [Standing.resumes]
        · simp at taken
      · rename_i after standing
        simp [State.Spares, standing, Standing.waits] at spares
      · simp at taken
      · simp at taken
    · simp at taken

/-- Every run that spares the waits keeps everybody safe. -/
theorem run_safe {program : Program ι σ ρ ε} {inside : ρ → Bool}
    (labelled : Labelled program inside) {state final : State ι σ ρ} {schedule : List (Label ι ε)}
    (disciplined : Disciplined inside state)
    (spares : Schedules.Along program.step State.Spares state schedule)
    (completed : Schedules.run program.step state schedule = some final) : Safe program final := by
  apply disciplined_safe labelled
  exact Schedules.run_guarded_invariant (fun _ _ _ => step_disciplined labelled) disciplined spares
    completed

end Monitor
