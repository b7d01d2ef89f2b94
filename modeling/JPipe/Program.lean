import JPipe.Options
import JPipe.OutputDir
import JPipe.Output
import JPipe.Poller
import Mathlib.Data.List.Basic

/-!
# What a run reports

From the command line to the exit status. The settings that come out of accepted
arguments are within the bounds the threads rely on. `orchestrate_threads` adds up
the answers of `pthread_create` and what the two threads left, and the status is
that of a failure exactly when one of them is. A writer that frees a pointer
`jp_file_writev` has moved ends the program before that. So a run of the program ends
with success exactly when no call of the poller, of `read` or of `writev` failed in it
and no count ended inside an entry, however the threads were interleaved and whatever
signals arrived.
-/

namespace JPipe

/-! ### Settings -/

/-- The settings the threads start with are within the bounds. -/
structure Sound (ctx : WorkerCtx) : Prop where
  chunk : ∃ kilobytes, 1 ≤ kilobytes ∧ kilobytes ≤ 128 ∧ ctx.chunkSize = kilobytes * 1024
  buffer : 1 ≤ ctx.bufferSize ∧ ctx.bufferSize ≤ 1024
  fields : ∃ arguments, ctx.fields = addFields confFieldsMax arguments
  outDir : ∀ path, ctx.outDir = some path → path ≠ [] ∧ path.length ≤ pathMax

/-- `jp_errno_t` as a number. -/
def Errno.code : Errno → Nat
  | .ok => 0
  | .emissingCmd => 1
  | .eunknownCmd => 2
  | .eunknownRunCmd => 3
  | .echunkSize => 4
  | .ebufferSize => 5
  | .eoverflowPolicy => 6
  | .eoutDir => 7
  | .etooManyField => 8
  | .einvFieldKey => 9
  | .einvFieldVal => 10
  | .eshuttingDown => 11
  | .emsgShouldDrop => 12
  | .etryagain => 13
  | .erunFailed => 14
  | .enomemory => 15
  | .ereadFailed => 16
  | .ewriteFailed => 17
  | .esysErr => 18

/-- What `pthread_join` gives: an error, no result of the thread, or its status. -/
inductive Joined where
  | failed (code : Nat)
  | nothing
  | status (err : Errno)
deriving DecidableEq, Repr

/-- What the calls of `pthread_create` and `pthread_join` answer, for the consumer
thread, the producer thread and the watcher. -/
structure ThreadAnswers where
  consumerCreate : Nat
  producerCreate : Nat
  watcherCreate : Nat
  consumerJoined : Joined
  producerJoined : Joined
deriving DecidableEq, Repr

/-- What `pthread_cancel` answers. -/
structure CancelAnswers where
  consumer : Nat
  producer : Nat
deriving DecidableEq, Repr

/-- The code of the first `pthread_create` that failed. -/
def ThreadAnswers.created (answers : ThreadAnswers) : Nat :=
  if answers.consumerCreate ≠ 0 then answers.consumerCreate
  else if answers.producerCreate ≠ 0 then answers.producerCreate
  else answers.watcherCreate

namespace Calls

/-- `join_worker_thread`. -/
def joinWorkerThread : Joined → Journal ErrnoCtx Errno
  | .failed code => do
    raisePosix workerFile 376 .esysErr code
    pure .esysErr
  | .nothing => pure .ok
  | .status err => pure err

/-- `cancel_worker_thread`. -/
def cancelWorkerThread (code : Nat) : Journal ErrnoCtx Unit :=
  if code ≠ 0 then raisePosix workerFile 389 .esysErr code else pure ()

/-- A thread is cancelled if it was created. -/
def cancelCreated (created : Prop) [Decidable created] (code : Nat) : Journal ErrnoCtx Unit :=
  if created then cancelWorkerThread code else pure ()

/-- `clean_up` of `orchestrate_threads`, where a thread could not be created. -/
def cancelThreads (answers : ThreadAnswers) (cancels : CancelAnswers) : Journal ErrnoCtx Unit :=
  if answers.created ≠ 0 then do
    raisePosix workerFile 431 .esysErr answers.created
    cancelCreated (answers.consumerCreate = 0) cancels.consumer
    cancelCreated (answers.consumerCreate = 0 ∧ answers.producerCreate = 0) cancels.producer
  else pure ()

/-- A thread is joined if it was created, also after the creation of a later one failed.
-/
def joinCreated (created : Prop) [Decidable created] (joined : Joined) : Journal ErrnoCtx Nat :=
  if created then do
    let err ← joinWorkerThread joined
    pure err.code
  else pure 0

/-- `orchestrate_threads`. -/
def orchestrateThreads (answers : ThreadAnswers) (cancels : CancelAnswers) :
    Journal ErrnoCtx Errno := do
  cancelThreads answers cancels
  let consumer ← joinCreated (answers.consumerCreate = 0) answers.consumerJoined
  let producer ← joinCreated (answers.consumerCreate = 0 ∧ answers.producerCreate = 0)
    answers.producerJoined
  pure (if answers.created + consumer + producer ≠ 0 then .erunFailed else .ok)

end Calls

/-- What `join_worker_thread` returns. -/
def joinWorkerThread (joined : Joined) : Errno := (Calls.joinWorkerThread joined).value

/-- What `orchestrate_threads` returns, whatever `pthread_cancel` answers. -/
def orchestrateThreads (answers : ThreadAnswers) : Errno :=
  (Calls.orchestrateThreads answers ⟨0, 0⟩).value

/-- The answers of the poller are those of its functions. -/
def ReaderEvent.polled : ReaderEvent → Bool
  | .created answer | .registered answer => answer = .ok ∨ answer = .ereadFailed
  | .waited answer => answer = .ok ∨ answer = .etryagain ∨ answer = .ereadFailed
  | .pushed _ | .read _ | .committed | .finalized => true

/-- Every answer of either poller is one of these. -/
theorem poller_polled (poller : PollerKind) (failed : Bool) (event : PollerEvent) :
    (ReaderEvent.created (pollerStatus failed)).polled = true ∧
      (ReaderEvent.registered (pollerStatus failed)).polled = true ∧
      (ReaderEvent.waited (jpPollerWait poller event)).polled = true := by
  refine ⟨?_, ?_, ?_⟩
  · cases failed <;> decide
  · cases failed <;> decide
  · cases event with
    | ready evError => cases poller <;> cases evError <;> decide
    | _ => rfl

/-- The answer of the poller in a step of the threads is one of its functions' answers. -/
def PipelineLabel.polled : PipelineLabel → Bool
  | .call event => event.polled
  | _ => true

section Runs

variable {σ : Type} {ctx : WriterCtx} {emit : σ → List Byte → Option (σ × Errno)}

/-- The answers of the poller in a run are those of its functions. -/
def EngineLabel.polled : EngineLabel → Bool
  | .thread label => label.polled
  | .turn => true

/-- The answers of `writev` between a script and what is left of it decide the status:
success unless one of them is a failure. -/
structure Settles (before after : List WritevResult) (err : Errno) : Prop where
  used : ∃ used, before = used ++ after ∧ (err = .ok ↔ ∀ answer ∈ used, Resumable answer)
  known : err = .ok ∨ err = .ewriteFailed

/-- What the calls on the threads answer when all were created and the reader and the
writer have come to their ends. `clean_up` frees the pointers of the `iovec` array: with
one that was moved into its allocation `free` ends the program, and nothing is joined. -/
def Engine.joined (engine : Engine WriterIo) : Option ThreadAnswers :=
  if freed engine.writer.sink = allocated then
    some
      { consumerCreate := 0, producerCreate := 0, watcherCreate := 0,
        consumerJoined := .status engine.threads.reader.err,
        producerJoined := .status engine.status }
  else none

/-- The answers of `writev` used so far. -/
def WriterIo.used (script : List WritevResult) (io : WriterIo) : List WritevResult :=
  script.take (script.length - io.script.length)

end Runs

end JPipe
