import JPipe.Monitor
import JPipe.Queue
import JPipe.Reader
import JPipe.Schedules

/-!
# When the watcher cannot be created

The error path of `orchestrate_threads`. The reader and the writer run since they
were created; the main thread asks for the cancellation of both, joins both and
finalizes the queue. Here the functions of the queue stand at each of their loads,
at the mutex, in the section under it and before it is unlocked, and of the queue
only what they test is kept: `head`, `tail`, the blocks and the signals do not
decide where a thread goes.

A thread that leaves its function, or acts on its cancellation, runs
`thread_cleanup`, which calls `jp_queue_finalize`. It may act on its cancellation in
the calls its function makes beside those of the queue, in the log line of
`jp_queue_finalize` in a debug build, and in `pthread_cond_wait`. In the last case
it owns the mutex when it calls `jp_queue_finalize`, which locks it again if the queue
is active and never unlocks it if it is not.
-/

namespace JPipe

/-- The variables of the queue that its functions test. -/
structure Shared where
  active : Bool
  length : Nat
  capacity : Nat
  policy : Policy
deriving DecidableEq, Repr

inductive Thread where
  | main
  | reader
  | writer
deriving DecidableEq, Repr

/-- The functions of the queue. -/
inductive QueueCall where
  | pushUncommitted
  | pushCommit
  | popUncommitted
  | popCommit
  | finalize
deriving DecidableEq, Repr

/-- Where a thread stands in a function of the queue: at a load of `active` or of
`length` without the mutex, at the log line with what it found, at the mutex, in the
section, or before the mutex is unlocked. -/
inductive Stage where
  | loadActive
  | loadLength
  | log (active : Bool)
  | lock
  | locked
  | unlock (answer : Errno)
deriving DecidableEq, Repr

/-- The next step of a function of the queue. -/
inductive Move where
  | goes (queue : Shared) (stage : Stage)
  | locks
  | waits
  | unlocks (answer : Errno)
  | returns (answer : Errno)

/-- The first step of a function. -/
def QueueCall.start : QueueCall → Stage
  | .pushUncommitted | .finalize => .loadActive
  | .popUncommitted => .loadLength
  | .pushCommit | .popCommit => .lock

/-- The section of `jp_queue_push_uncommitted` under the mutex. -/
def pushSection (queue : Shared) : Move :=
  if queue.policy = .wait ∧ queue.active ∧ queue.length ≥ queue.capacity then .waits
  else if !queue.active then .goes queue (.unlock .eshuttingDown)
  else if queue.policy = .drop ∧ queue.length ≥ queue.capacity then
    .goes queue (.unlock .emsgShouldDrop)
  else .goes queue (.unlock .ok)

/-- The section of `jp_queue_pop_uncommitted` under the mutex. -/
def popSection (queue : Shared) : Move :=
  if queue.length = 0 ∧ queue.active then .waits
  else if queue.length = 0 ∧ !queue.active then .goes queue (.unlock .eshuttingDown)
  else .goes queue (.unlock .ok)

/-- The functions of the queue, step by step. -/
def QueueCall.move (queue : Shared) : QueueCall → Stage → Option Move
  | .pushUncommitted, .loadActive =>
    some (if queue.active then .goes queue .loadLength else .returns .eshuttingDown)
  | .pushUncommitted, .loadLength =>
    some (if queue.length < queue.capacity then .returns .ok else .goes queue .lock)
  | .pushUncommitted, .locked => some (pushSection queue)
  | .pushCommit, .locked =>
    some (.goes { queue with length := queue.length + 1 } (.unlock .ok))
  | .popUncommitted, .loadLength =>
    some (if queue.length > 0 then .returns .ok else .goes queue .lock)
  | .popUncommitted, .locked => some (popSection queue)
  | .popCommit, .locked =>
    some (.goes { queue with length := queue.length - 1 } (.unlock .ok))
  | .finalize, .loadActive => some (.goes queue (.log queue.active))
  | .finalize, .log active => some (if active then .goes queue .lock else .returns .ok)
  | .finalize, .locked => some (.goes { queue with active := false } (.unlock .ok))
  | _, .lock => some .locks
  | _, .unlock answer => some (.unlocks answer)
  | _, _ => none

/-- Where `jp_writer_produce` stands: at `jp_queue_pop_uncommitted`, at a record of
the block, at `jp_queue_pop_commit`, at `jp_queue_finalize`, or past its end. -/
inductive WriterPlace where
  | pop
  | write
  | commit
  | cleanUp
  | returned
deriving DecidableEq, Repr

/-- Where `orchestrate_threads` stands after both threads were created. -/
inductive MainPlace where
  | createWatcher
  | cancelReader
  | cancelWriter
  | joinReader
  | joinWriter
  | finalize
  | returned
deriving DecidableEq, Repr

/-- A function that calls those of the queue, and where it stands: the main thread's,
the reader's, the writer's, or the cleanup handler of the last two. -/
inductive Body where
  | main (place : MainPlace)
  | reader (reader : Reader)
  | writer (place : WriterPlace)
  | threadCleanup
  | exiting
deriving DecidableEq, Repr

/-- A thread in its own function, or in a function of the queue called by it. -/
inductive Point where
  | body (caller : Body)
  | inQueue (call : QueueCall) (stage : Stage) (caller : Body)
deriving DecidableEq, Repr

/-- What the program leaves open: the answers of the reader's calls and of the
writer's, or nothing. -/
inductive Choice where
  | event (event : ReaderEvent)
  | written (answer : Errno)
  | goOn
deriving DecidableEq, Repr

/-- The function of the queue a function calls where it stands. -/
def Body.calls : Body → Option QueueCall
  | .main .finalize => some .finalize
  | .reader current =>
    match current.point with
    | .reserve => some .pushUncommitted
    | .commitFull | .commitEnd | .commitAgain => some .pushCommit
    | .cleanUp => some .finalize
    | .create | .register | .wait | .read | .returned => none
  | .writer .pop => some .popUncommitted
  | .writer .commit => some .popCommit
  | .writer .cleanUp => some .finalize
  | .threadCleanup => some .finalize
  | _ => none

/-- How it goes on with the answer. -/
def Body.resume (chunkSize : Nat) : Body → QueueCall → Errno → Option Body
  | .main .finalize, .finalize, _ => some (.main .returned)
  | .reader current, .pushUncommitted, answer =>
    (current.step chunkSize (.pushed answer)).map .reader
  | .reader current, .pushCommit, _ => (current.step chunkSize .committed).map .reader
  | .reader current, .finalize, _ => (current.step chunkSize .finalized).map .reader
  | .writer .pop, .popUncommitted, answer =>
    some (.writer (if answer = .ok then .write else .cleanUp))
  | .writer .commit, .popCommit, _ => some (.writer .pop)
  | .writer .cleanUp, .finalize, _ => some (.writer .returned)
  | .threadCleanup, .finalize, _ => some .exiting
  | _, _, _ => none

/-- The steps of a function outside of the queue. A record that is written leaves the
writer at the block; `pthread_exit` after the return runs the handler. -/
def Body.own (chunkSize : Nat) (queue : Shared) :
    Body → Choice → Option (Monitor.Action Thread Shared Point)
  | .main .createWatcher, .goOn => some (.step queue (.body (.main .cancelReader)))
  | .main .cancelReader, .goOn => some (.cancel .reader (.body (.main .cancelWriter)))
  | .main .cancelWriter, .goOn => some (.cancel .writer (.body (.main .joinReader)))
  | .main .joinReader, .goOn => some (.join .reader (.body (.main .joinWriter)))
  | .main .joinWriter, .goOn => some (.join .writer (.body (.main .finalize)))
  | .reader current, .event event =>
    (current.step chunkSize event).map fun next => .step queue (.body (.reader next))
  | .reader current, .goOn =>
    if current.point = .returned then some (.step queue (.body .threadCleanup)) else none
  | .writer .write, .written answer =>
    some (.step queue (.body (.writer (if answer = .ok then .write else .cleanUp))))
  | .writer .write, .goOn => some (.step queue (.body (.writer .commit)))
  | .writer .returned, .goOn => some (.step queue (.body .threadCleanup))
  | .exiting, .goOn => some .exit
  | _, _ => none

/-- What a thread does at a point. -/
def Point.act (chunkSize : Nat) (queue : Shared) (point : Point) (choice : Choice) :
    Option (Monitor.Action Thread Shared Point) :=
  match point with
  | .body caller =>
    match caller.calls with
    | some call => some (.step queue (.inQueue call call.start caller))
    | none => caller.own chunkSize queue choice
  | .inQueue call stage caller =>
    (call.move queue stage).bind fun
      | .goes after next => some (.step after (.inQueue call next caller))
      | .locks => some (.lock (.inQueue call .locked caller))
      | .waits => some (.wait (.inQueue call .locked caller))
      | .unlocks answer =>
        (caller.resume chunkSize call answer).map fun next => .unlock (.body next)
      | .returns answer =>
        (caller.resume chunkSize call answer).map fun next => .step queue (.body next)

/-- The function is the reader's or the writer's and has not returned. -/
def Body.cancellable : Body → Bool
  | .reader current => current.point ≠ .returned
  | .writer place => place ≠ .returned
  | .main _ | .threadCleanup | .exiting => false

/-- The points where a thread may act on its cancellation, beside the waits. -/
def Point.cancellable : Point → Bool
  | .body caller => caller.cancellable
  | .inQueue .finalize (.log _) caller => caller.cancellable
  | .inQueue _ _ _ => false

/-- The threads of `orchestrate_threads`. -/
def threads (chunkSize : Nat) : Monitor.Program Thread Shared Point Choice where
  act := Point.act chunkSize
  cancellable := Point.cancellable
  handler := .body .threadCleanup

/-- The start of `orchestrate_threads` once both threads were created and the watcher is
about to be. -/
def createdThreads (capacity : Nat) (policy : Policy) : Monitor.State Thread Shared Point where
  shared := ⟨true, 0, capacity, policy⟩
  owner := none
  standing := fun
    | .main => .running (.body (.main .createWatcher))
    | .reader => .running (.body (.reader Reader.start))
    | .writer => .running (.body (.writer .pop))
  requested := fun _ => false

/-! ### The sections under the mutex -/

/-- The stages at which the mutex is owned. -/
def Stage.inside : Stage → Bool
  | .locked | .unlock _ => true
  | .loadActive | .loadLength | .log _ | .lock => false

/-- The points at which the mutex is owned. -/
def Point.inside : Point → Bool
  | .body _ => false
  | .inQueue _ stage _ => stage.inside

/-- A step of a function of the queue that enters the section at the mutex and leaves
it when it unlocks. -/
def Move.Fits (stage : Stage) : Move → Prop
  | .goes _ next => next.inside = stage.inside
  | .locks => stage.inside = false
  | .waits | .unlocks _ => stage.inside = true
  | .returns _ => stage.inside = false

/-- The section of `jp_queue_push_uncommitted` waits or ends. -/
theorem push_section_fits (queue : Shared) : (pushSection queue).Fits .locked := by
  rw [pushSection]
  split_ifs <;> rfl

/-- The section of `jp_queue_pop_uncommitted` waits or ends. -/
theorem pop_section_fits (queue : Shared) : (popSection queue).Fits .locked := by
  rw [popSection]
  split_ifs <;> rfl

/-- Every function of the queue does so. -/
theorem move_fits {queue : Shared} {call : QueueCall} {stage : Stage} {move : Move}
    (moves : call.move queue stage = some move) : move.Fits stage := by
  have given {other : Move} (same : call.move queue stage = some other) (fits : other.Fits stage) :
      move.Fits stage := Option.some.inj (same.symm.trans moves) ▸ fits
  cases stage with
  | loadActive =>
    cases call with
    | pushUncommitted =>
      apply given rfl
      split <;> rfl
    | finalize => exact given rfl rfl
    | _ => simp [QueueCall.move] at moves
  | loadLength =>
    cases call with
    | pushUncommitted | popUncommitted =>
      apply given rfl
      split <;> rfl
    | _ => simp [QueueCall.move] at moves
  | log active =>
    cases call with
    | finalize =>
      apply given rfl
      split <;> rfl
    | _ => simp [QueueCall.move] at moves
  | lock => cases call <;> exact given rfl rfl
  | locked =>
    cases call with
    | pushUncommitted => exact given rfl (push_section_fits queue)
    | popUncommitted => exact given rfl (pop_section_fits queue)
    | pushCommit | popCommit | finalize => exact given rfl rfl
  | unlock answer => cases call <;> exact given rfl rfl

/-- A function's own steps leave it outside of the queue. -/
theorem own_fits {chunkSize : Nat} {queue : Shared} {caller : Body} {choice : Choice}
    {action : Monitor.Action Thread Shared Point}
    (acts : caller.own chunkSize queue choice = some action) :
    action.Fits Point.inside (.body caller) := by
  have given {other : Monitor.Action Thread Shared Point}
      (same : caller.own chunkSize queue choice = some other)
      (fits : other.Fits Point.inside (.body caller)) : action.Fits Point.inside (.body caller) :=
    Option.some.inj (same.symm.trans acts) ▸ fits
  cases choice with
  | event event =>
    cases caller with
    | reader current =>
      obtain ⟨next, _, rfl⟩ := Option.map_eq_some_iff.mp acts
      rfl
    | main place => cases place <;> simp [Body.own] at acts
    | writer place => cases place <;> simp [Body.own] at acts
    | threadCleanup | exiting => simp [Body.own] at acts
  | written answer =>
    cases caller with
    | writer place =>
      cases place with
      | write => exact given rfl rfl
      | _ => simp [Body.own] at acts
    | main place => cases place <;> simp [Body.own] at acts
    | reader | threadCleanup | exiting => simp [Body.own] at acts
  | goOn =>
    cases caller with
    | main place =>
      cases place with
      | finalize | returned => simp [Body.own] at acts
      | _ => exact given rfl rfl
    | reader current =>
      by_cases returned : current.point = .returned
      · exact given (if_pos returned) rfl
      · simp [Body.own, returned] at acts
    | writer place =>
      cases place with
      | write | returned => exact given rfl rfl
      | _ => simp [Body.own] at acts
    | threadCleanup => simp [Body.own] at acts
    | exiting => exact given rfl rfl

/-- The threads own the mutex exactly in the sections of the queue. -/
theorem threads_labelled (chunkSize : Nat) : Monitor.Labelled (threads chunkSize) Point.inside := by
  constructor
  · intro queue point choice action acts
    cases point with
    | body caller =>
      change Point.act chunkSize queue (.body caller) choice = some action at acts
      rw [Point.act] at acts
      split at acts
      · rename_i call _
        obtain rfl := Option.some.inj acts
        cases call <;> rfl
      · exact own_fits acts
    | inQueue call stage caller =>
      obtain ⟨move, moves, following⟩ := Option.bind_eq_some_iff.mp acts
      have fits := move_fits moves
      cases move with
      | goes after next =>
        obtain rfl := Option.some.inj following
        exact fits
      | locks =>
        obtain rfl := Option.some.inj following
        exact ⟨fits, rfl⟩
      | waits =>
        obtain rfl := Option.some.inj following
        exact ⟨fits, rfl⟩
      | unlocks answer =>
        obtain ⟨next, _, rfl⟩ := Option.map_eq_some_iff.mp following
        exact ⟨fits, rfl⟩
      | returns answer =>
        obtain ⟨next, _, rfl⟩ := Option.map_eq_some_iff.mp following
        exact Eq.symm fits
  · intro point cancellable
    cases point with
    | body caller => rfl
    | inQueue call stage caller =>
      cases call <;> cases stage <;> first
        | rfl
        | exact absurd cancellable Bool.false_ne_true
  · rfl

/-- At the start nobody owns the mutex. -/
theorem created_disciplined (capacity : Nat) (policy : Policy) :
    Monitor.Disciplined Point.inside (createdThreads capacity policy) := by
  constructor
  · intro thread
    cases thread <;> simp [createdThreads, Monitor.Standing.within, Point.inside]
  · intro thread next
    cases thread <;> simp [createdThreads, Monitor.Standing.resumes]

/-- Whatever the capacity, the policy and the chunk size, as long as no thread acts on
its cancellation in `pthread_cond_wait`, no thread waits for the mutex it owns or has
ended as its owner. -/
theorem startup_failure_safe (capacity : Nat) (policy : Policy) (chunkSize : Nat)
    (schedule : List (Monitor.Label Thread Choice)) (final : Monitor.State Thread Shared Point)
    (completed : Schedules.run (threads chunkSize).step (createdThreads capacity policy) schedule =
      some final)
    (spares : Schedules.Along (threads chunkSize).step Monitor.State.Spares
      (createdThreads capacity policy) schedule) :
    Monitor.Safe (threads chunkSize) final :=
  Monitor.run_safe (threads_labelled chunkSize) (created_disciplined capacity policy) spares
    completed

/-- The writer waits for a block. -/
def writerWaits : List (Monitor.Label Thread Choice) :=
  [.run .writer .goOn, .run .writer .goOn, .run .writer .goOn, .run .writer .goOn]

/-- The watcher cannot be created, and the main thread asks for both cancellations. -/
def mainCancels : List (Monitor.Label Thread Choice) :=
  [.run .main .goOn, .run .main .goOn, .run .main .goOn]

/-- The reader acts on its cancellation in its poller, finalizes the queue and ends. -/
def readerEnds : List (Monitor.Label Thread Choice) :=
  [.run .reader (.event (.created .ok)), .run .reader (.event (.registered .ok)),
    .cancelled .reader, .run .reader .goOn, .run .reader .goOn, .run .reader .goOn,
    .run .reader .goOn, .run .reader .goOn, .run .reader .goOn, .run .reader .goOn]

/-- The writer wakes up, acts on its cancellation after `jp_queue_pop_uncommitted` and
ends; the main thread joins both and finalizes the queue. -/
def restEnds : List (Monitor.Label Thread Choice) :=
  [.wake .writer, .run .writer .goOn, .run .writer .goOn, .run .writer .goOn, .cancelled .writer,
    .run .writer .goOn, .run .writer .goOn, .run .writer .goOn, .run .writer .goOn,
    .run .main .goOn, .run .main .goOn, .run .main .goOn, .run .main .goOn, .run .main .goOn]

/-- A writer that is woken before it acts on its cancellation lets everybody end. -/
theorem woken_writer_safe :
    ∃ final, Schedules.run (threads 1024).step (createdThreads 64 .wait)
        (writerWaits ++ mainCancels ++ readerEnds ++ restEnds) = some final ∧
      final.standing .main = .running (.body (.main .returned)) ∧
      Monitor.Safe (threads 1024) final := by
  have ran : (Schedules.run (threads 1024).step (createdThreads 64 .wait)
      (writerWaits ++ mainCancels ++ readerEnds ++ restEnds)).map
      (fun final => final.standing .main) = some (.running (.body (.main .returned))) := by decide
  obtain ⟨final, completed, returned⟩ := Option.map_eq_some_iff.mp ran
  exact ⟨final, completed, returned, startup_failure_safe 64 .wait 1024 _ final completed (by decide)⟩

/-- The writer acts on its cancellation in `pthread_cond_wait` and calls
`jp_queue_finalize` up to the mutex. -/
def writerCleansUp : List (Monitor.Label Thread Choice) :=
  [.cancelled .writer, .run .writer .goOn, .run .writer .goOn, .run .writer .goOn,
    .run .writer .goOn]

/-- While the queue is active the writer waits for the mutex it owns; after the reader
finalized the queue it ends as the owner of the mutex. -/
theorem waiting_writer_breaks :
    (∃ final, Schedules.run (threads 1024).step (createdThreads 64 .wait)
        (writerWaits ++ mainCancels ++ writerCleansUp) = some final ∧
      final.standing .writer = .running (.inQueue .finalize .lock .threadCleanup) ∧
      final.owner = some .writer ∧ ¬ Monitor.Safe (threads 1024) final) ∧
    ∃ final, Schedules.run (threads 1024).step (createdThreads 64 .wait)
        (writerWaits ++ mainCancels ++ readerEnds ++ writerCleansUp ++ [.run .writer .goOn]) =
        some final ∧
      final.standing .writer = .ended ∧ final.owner = some .writer ∧
      ¬ Monitor.Safe (threads 1024) final := by
  constructor
  · have ran : (Schedules.run (threads 1024).step (createdThreads 64 .wait)
        (writerWaits ++ mainCancels ++ writerCleansUp)).map
        (fun final => (final.standing .writer, final.owner)) =
        some (.running (.inQueue .finalize .lock .threadCleanup), some .writer) := by decide
    obtain ⟨final, completed, seen⟩ := Option.map_eq_some_iff.mp ran
    obtain ⟨standing, owner⟩ := Prod.mk.inj seen
    refine ⟨final, completed, standing, owner, ?_⟩
    intro safe
    exact safe.locking .writer _ .goOn (.inQueue .finalize .locked .threadCleanup) standing rfl owner
  · have ran : (Schedules.run (threads 1024).step (createdThreads 64 .wait)
        (writerWaits ++ mainCancels ++ readerEnds ++ writerCleansUp ++ [.run .writer .goOn])).map
        (fun final => (final.standing .writer, final.owner)) = some (.ended, some .writer) := by
      decide
    obtain ⟨final, completed, seen⟩ := Option.map_eq_some_iff.mp ran
    obtain ⟨standing, owner⟩ := Prod.mk.inj seen
    refine ⟨final, completed, standing, owner, ?_⟩
    intro safe
    exact safe.ended .writer standing owner

/-! ### Cancelled in the wait -/

/-- A thread in its handler that owns the mutex waits for it, or ends as its owner. -/
theorem owning_cleanup_breaks (chunkSize : Nat) {state : Monitor.State Thread Shared Point}
    {thread : Thread} (cleans : state.standing thread = .running (.body .threadCleanup))
    (owns : state.owner = some thread) :
    ∃ schedule final, Schedules.run (threads chunkSize).step state schedule = some final ∧
      ¬ Monitor.Safe (threads chunkSize) final := by
  cases active : state.shared.active with
  | true =>
    have ran : Schedules.run (threads chunkSize).step state
        (List.replicate 3 (.run thread .goOn)) =
        some (state.stand thread (.running (.inQueue .finalize .lock .threadCleanup))) := by
      simp [Schedules.run, Monitor.Program.step, Monitor.Program.run, cleans, threads, Point.act,
        Body.calls, Monitor.State.perform, QueueCall.start, Monitor.State.stand, QueueCall.move,
        active, List.replicate]
    refine ⟨_, _, ran, ?_⟩
    intro safe
    refine safe.locking thread (.inQueue .finalize .lock .threadCleanup) .goOn
      (.inQueue .finalize .locked .threadCleanup) ?_ rfl owns
    exact Function.update_self ..
  | false =>
    have ran : Schedules.run (threads chunkSize).step state
        (List.replicate 4 (.run thread .goOn)) = some (state.stand thread .ended) := by
      simp [Schedules.run, Monitor.Program.step, Monitor.Program.run, cleans, threads, Point.act,
        Body.calls, Monitor.State.perform, QueueCall.start, Monitor.State.stand, QueueCall.move,
        active, List.replicate, Body.resume, Body.own]
    refine ⟨_, _, ran, ?_⟩
    intro safe
    refine safe.ended thread ?_ owns
    exact Function.update_self ..

/-- Wherever a thread can act on its cancellation in `pthread_cond_wait` while nobody
owns the mutex, it can go on alone to where it waits for the mutex it owns, or ends as
its owner. -/
theorem wait_cancelled_breaks (chunkSize : Nat) {state : Monitor.State Thread Shared Point}
    {thread : Thread} {next : Point} (waits : state.standing thread = .asleep next)
    (requested : state.requested thread = true) (free : state.owner = none) :
    ∃ schedule final, Schedules.run (threads chunkSize).step state (.cancelled thread :: schedule) =
        some final ∧ ¬ Monitor.Safe (threads chunkSize) final := by
  have owning : Schedules.run (threads chunkSize).step state
      [.cancelled thread, .run thread .goOn] = some
        { state.stand thread (.running (.body .threadCleanup)) with
          owner := some thread
          requested := Function.update state.requested thread false } := by
    simp [Schedules.run, Monitor.Program.step, Monitor.Program.cancelled, Monitor.Program.run, waits,
      requested, free, threads, Monitor.State.stand, Monitor.State.acquire]
  obtain ⟨later, final, ran, broken⟩ := @owning_cleanup_breaks chunkSize
    { state.stand thread (.running (.body .threadCleanup)) with
      owner := some thread
      requested := Function.update state.requested thread false }
    thread (Function.update_self ..) rfl
  refine ⟨.run thread .goOn :: later, final, ?_, broken⟩
  change Schedules.run _ _ ([.cancelled thread, .run thread .goOn] ++ later) = _
  rw [Schedules.run_append, owning, Option.bind_some]
  exact ran

end JPipe
