import JPipe.Liveness
import JPipe.Potential
import Mathlib.Data.List.Basic

/-!
# What a run costs and where it ends

The potential of the threads and the bytes the writer has not gone past bound the
work of a run; since somebody can always go on, the same potential leads from
every state to the return of the reader and the writer.
-/

namespace JPipe

/-! ### Before the reader has waited -/

/-- The reader is yet to wait for the poller. -/
def ReaderPoint.waits : ReaderPoint → Bool
  | .create | .register | .wait | .commitAgain => true
  | _ => false

/-- At the top of the inner loop it is not. -/
theorem loop_top_waits (reader : Reader) : reader.loopTop.point.waits = false := by
  rw [Reader.loopTop]
  split <;> simp [ReaderPoint.waits]

/-- The reader is to wait again only after `EAGAIN`. -/
theorem reader_waits {chunkSize : Nat} {reader next : Reader} {event : ReaderEvent}
    (taken : reader.step chunkSize event = some next) (waits : next.point.waits = true) :
    event ≠ .waited .ok ∧ (reader.point.waits = true ∨ event = .read .eagain) := by
  cases step_reads taken with
  | waited answer standing =>
    refine ⟨?_, Or.inl (by simp [standing, ReaderPoint.waits])⟩
    rintro same
    simp only [ReaderEvent.waited.injEq] at same
    subst same
    simp [Reader.afterWait, loop_top_waits] at waits
  | created answer standing | registered answer standing =>
    simp [standing, ReaderPoint.waits]
  | pushed answer standing =>
    by_cases shutting : answer = .eshuttingDown <;>
      simp [Reader.afterPush, shutting, ReaderPoint.waits] at waits
  | ended standing =>
    by_cases partly : reader.queueErr = .ok ∧ reader.held.length > 0 <;>
      simp [partly, ReaderPoint.waits] at waits
  | drained standing => exact ⟨by simp, Or.inr rfl⟩
  | committedAgain standing => simp [standing, ReaderPoint.waits]
  | discarded | interrupted | committedFull => simp [loop_top_waits] at waits
  | _ => simp [ReaderPoint.waits] at waits

/-- On its way to the end the reader waits for the poller once at most. -/
theorem willing_waits {chunkSize : Nat} {state next : Pipeline} {label : PipelineLabel}
    (willing : label.willing = true) (taken : state.step chunkSize label = some next)
    (waits : next.reader.point.waits = true) :
    state.reader.point.waits = true ∧ label ≠ .call (.waited .ok) := by
  have unwaited : label ≠ .call (.waited .ok) := by
    rintro rfl
    cases step_moves taken with
    | called event reader _ _ goes => exact (reader_waits goes waits).1 rfl
  refine ⟨?_, unwaited⟩
  rcases step_reader taken with same | ⟨event, goes, gives⟩
  · exact same ▸ waits
  · apply (reader_waits goes waits).2.resolve_right
    rintro rfl
    simp only [Pipeline.Gives] at gives
    subst gives
    simp [PipelineLabel.willing] at willing

/-- The poller answers a reader that waits. -/
theorem waited_standing {chunkSize : Nat} {state next : Pipeline} {answer : Errno}
    (taken : state.step chunkSize (.call (.waited answer)) = some next) :
    state.reader.point = .wait := by
  cases step_moves taken with
  | called event reader _ _ goes =>
    cases step_reads goes
    assumption

/-- A willing step is the reader's or the writer's own, or ends a wait. -/
theorem willing_works {label : PipelineLabel} (willing : label.willing = true) :
    label.idle = false ∨ label = .call (.waited .ok) := by
  cases label with
  | call event =>
    cases event with
    | waited answer => exact Or.inr (by simpa [PipelineLabel.willing] using willing)
    | read result =>
      cases result <;> simp_all [PipelineLabel.willing, PipelineLabel.idle, ReaderEvent.idle]
    | _ => exact Or.inl rfl
  | _ => simp_all [PipelineLabel.willing, PipelineLabel.idle]

section Runs

variable {σ : Type} {ctx : WriterCtx} {emit : σ → List Byte → Option (σ × Errno)}

/-- What is left to do: of the threads, and of the turns of the writer's loop. -/
def Engine.potential (stdin : List Byte) (engine : Engine σ) : Nat :=
  engine.threads.potential + 2 * (stdin.length - engine.consumed.length) +
    min engine.writer.overflow.length 1

/-- The writer goes past bytes only in a turn. -/
theorem thread_consumed {engine next : Engine σ} {label : PipelineLabel}
    (consistent : Consistent engine.threads.queue)
    (taken : engine.step ctx emit (.thread label) = some next) :
    next.consumed = engine.consumed := by
  obtain ⟨_, used, stepped, startPtr, _⟩ := thread_cases taken
  by_cases reads : label = .pop .popRead
  · subst reads
    obtain ⟨_, moved, _⟩ := pop_step taken
    obtain ⟨slot, point, queue⟩ := pop_read_cases moved
    have fresh : engine.threads.queue.consumer.read = none := by
      rw [point]
      simp [ConsumerPoint.read]
    rw [Engine.consumed, Engine.consumed, startPtr, fresh, queue]
    simp
  · by_cases commits : label = .pop .popCommit
    · subst commits
      have nothing : engine.unread = [] := used rfl
      obtain ⟨_, moved, _⟩ := pop_step taken
      obtain ⟨slot, content, point, queue⟩ := pop_commit_cases moved
      have whole := consumed_unread consistent
      rw [nothing, List.append_nil] at whole
      rw [whole, Engine.consumed, Engine.taken, queue, point]
      simp [ConsumerPoint.read]
    · obtain ⟨read, popped⟩ := step_read_kept reads commits stepped
      rw [Engine.consumed, Engine.consumed, read, popped, startPtr, if_neg reads]

/-- A turn goes past what it takes from the rest of the block. -/
theorem turn_consumed {engine : Engine σ} (next : Engine σ) {taken : Nat}
    (consistent : Consistent engine.threads.queue) (same : next.threads = engine.threads)
    (moved : next.startPtr = engine.startPtr + taken) (inside : taken ≤ engine.unread.length)
    (unread : engine.unread ≠ []) :
    next.consumed.length = engine.consumed.length + taken := by
  have left := unread_eq consistent
  have some := List.length_pos_iff.mpr unread
  rw [left, List.length_drop] at inside some
  rw [Engine.consumed, Engine.consumed, same, moved, List.length_append, List.length_append,
    List.length_take, List.length_take]
  omega

/-- The bytes the writer has gone past, and those left of its block, are bytes of the
input. -/
theorem consumed_bounded {stdin : List Byte} {engine : Engine σ}
    (paired : Paired ctx.chunkSize stdin engine.threads) :
    engine.consumed.length + engine.unread.length ≤ stdin.length := by
  rw [← List.length_append, consumed_unread paired.consistent]
  exact ((taken_flatten paired).sublist.trans (committed_sublist paired)).length_le

/-- A writer that leaves its loop has less to do. -/
theorem left_potential {state : Pipeline} (running : state.writer = .running) :
    Pipeline.potential { state with writer := .cleanUp } < state.potential := by
  simp only [Pipeline.potential, running, WriterPoint.rank]
  omega

/-- A turn lowers the potential: it goes past bytes or empties the overflow. -/
theorem turn_lowers (positive : 0 < ctx.chunkSize) {stdin : List Byte} {sink : σ}
    {engine next : Engine σ} (running : Running ctx emit stdin sink engine)
    (taken : engine.step ctx emit .turn = some next) :
    next.potential stdin < engine.potential stdin := by
  have consistent := running.paired.consistent
  have room := consumed_bounded running.paired
  have moves (turn : Turn) (after : Engine σ) (unread : engine.unread ≠ [])
      (made : turn = innerTurn ctx.chunkSize engine.writer.overflow engine.unread)
      (threads : after.threads = engine.threads)
      (startPtr : after.startPtr = engine.startPtr + (engine.unread.length - turn.rest.length))
      (overflow : after.writer.overflow = turn.overflow) :
      after.potential stdin < engine.potential stdin := by
    have refined := turn_stage positive running.paired running.feeding unread
    rw [← made] at refined
    have shorter := refined.shorter
    have progress := refined.progress
    have past := turn_consumed after consistent threads startPtr (Nat.sub_le _ _) unread
    rw [Engine.potential, Engine.potential, threads, overflow, past]
    omega
  cases turn_cases taken with
  | carried turn _ unread made _ => exact moves turn _ unread made rfl rfl rfl
  | wrote turn payload sink _ unread made _ _ => exact moves turn _ unread made rfl rfl rfl
  | failed turn payload sink err standing _ _ _ _ _ =>
    have lower := left_potential standing
    have same : Engine.consumed { engine with
        threads := { engine.threads with writer := .cleanUp }
        writer := {
          overflow := engine.writer.overflow
          records := engine.writer.records ++ [recordOf ctx payload]
          sink := sink }
        err := err } = engine.consumed := by simp [Engine.consumed]
    rw [Engine.potential, Engine.potential, same]
    simp only
    omega

/-- The steps of the engine are paid for. -/
theorem engine_amortised (positive : 0 < ctx.chunkSize) (stdin : List Byte) (sink : σ) :
    Schedules.Amortised (Engine.step ctx emit) (Running ctx emit stdin sink) EngineLabel.idle
      (Engine.potential stdin) 15 where
  kept := fun _ _ _ => step_running positive
  working := by
    intro engine label next running working taken
    cases label with
    | turn => exact turn_lowers positive running taken
    | thread label =>
      obtain ⟨_, _, stepped, _, writer, _⟩ := thread_cases taken
      have lower := step_lowers running.paired.consistent working stepped
      rw [Engine.potential, Engine.potential, writer,
        thread_consumed running.paired.consistent taken]
      omega
  idling := by
    intro engine label next running idle taken
    cases label with
    | turn => simp [EngineLabel.idle] at idle
    | thread label =>
      obtain ⟨_, _, stepped, _, writer, _⟩ := thread_cases taken
      have raised := step_raises idle stepped
      rw [Engine.potential, Engine.potential, writer,
        thread_consumed running.paired.consistent taken]
      omega

/-- In every run, under either policy, whatever fails and whenever signals arrive, the
steps the reader and the writer take by themselves are at most 17 for each byte of the
input, 21 for the start and the end, and 15 for each step they wait for. These are the
answers of `jp_poller_wait`, the reads interrupted with `EINTR`, the wake-ups without a
signal and the watcher's steps. -/
theorem engine_work_bounded {capacity : Nat} (capacityPositive : 0 < capacity)
    (chunkPositive : 0 < ctx.chunkSize) (policy : Policy) (blocks : Nat → List Byte)
    (stdin : List Byte) (sink : σ) (schedule : List EngineLabel) (final : Engine σ)
    (completed : Schedules.run (Engine.step ctx emit)
      (Engine.start capacity policy blocks stdin sink) schedule = some final) :
    schedule.countP (fun label => !label.idle) ≤
      17 * stdin.length + 21 + 15 * schedule.countP EngineLabel.idle := by
  have bounded := Schedules.work_bounded (engine_amortised chunkPositive stdin sink)
    (start_running capacityPositive policy blocks stdin sink) completed
  have start : (Engine.start capacity policy blocks stdin sink).potential stdin =
      17 * stdin.length + 21 := by
    simp [Engine.potential, Engine.start, Pipeline.potential, Pipeline.start, Queue.rank,
      jpQueueCreate, Reader.start, Engine.consumed, ConsumerPoint.read, ReaderPoint.rank,
      WriterPoint.rank, ProducerPoint.rank, ConsumerPoint.rank]
    omega
  omega

/-- The run of one line, of seventeen steps, is within the bound. -/
theorem one_line_work :
    oneLine.countP (fun label => !label.idle) ≤
      17 * 2 + 21 + 15 * oneLine.countP EngineLabel.idle := by
  have ran : (Schedules.run (Engine.step (bareWriter 4) takeAll)
      (Engine.start 1 .wait (fun _ => []) [0x61, newline] ()) oneLine).isSome = true := by decide
  obtain ⟨final, completed⟩ := Option.isSome_iff_exists.mp ran
  exact engine_work_bounded Nat.one_pos (by decide) .wait (fun _ => []) [0x61, newline] () oneLine
    final completed

/-- The potential on the way to the end: the wait to come is paid for in advance. -/
def Engine.remaining (stdin : List Byte) (engine : Engine σ) : Nat :=
  engine.potential stdin + if engine.threads.reader.point.waits then 16 else 0

/-- A willing step leaves less to do. -/
theorem willing_lowers (positive : 0 < ctx.chunkSize) {stdin : List Byte} {sink : σ}
    {engine next : Engine σ} {label : EngineLabel} (willing : label.willing = true)
    (running : Running ctx emit stdin sink engine)
    (taken : engine.step ctx emit label = some next) :
    next.remaining stdin < engine.remaining stdin := by
  have amortised := @engine_amortised σ ctx emit positive stdin sink
  cases label with
  | turn =>
    have lower := turn_lowers positive running taken
    have same : next.threads.reader = engine.threads.reader := by
      cases turn_cases taken <;> rfl
    rw [Engine.remaining, Engine.remaining, same]
    omega
  | thread label =>
    have stepped := (thread_cases taken).2.2.1
    have kept : next.threads.reader.point.waits = true →
        engine.threads.reader.point.waits = true ∧ label ≠ .call (.waited .ok) :=
      willing_waits willing stepped
    rcases willing_works willing with working | waited
    · have lower := amortised.working engine (.thread label) next running working taken
      rw [Engine.remaining, Engine.remaining]
      split
      · rename_i waits
        rw [if_pos (kept waits).1]
        omega
      · omega
    · have idle : EngineLabel.idle (.thread label) = true := by
        rw [waited]
        rfl
      have raised := amortised.idling engine (.thread label) next running idle taken
      have before : engine.threads.reader.point = .wait := waited_standing (waited ▸ stepped)
      have after : next.threads.reader.point.waits = false := by
        by_contra waits
        exact (kept (by simpa using waits)).2 waited
      rw [Engine.remaining, Engine.remaining, after, before]
      simp only [ReaderPoint.waits, Bool.false_eq_true, ↓reduceIte]
      omega

/-- From a state that the threads can be in, willing steps lead to the return of both,
or to a call of the descriptor that does not return. -/
theorem finish_within_reach (positive : 0 < ctx.chunkSize) {stdin : List Byte} {sink : σ}
    {engine : Engine σ} (running : Running ctx emit stdin sink engine) :
    ∃ rest final, (∀ label ∈ rest, label.willing = true) ∧
      Schedules.run (Engine.step ctx emit) engine rest = some final ∧
      (final.Finished ∨ final.Blocked ctx emit) ∧ rest.length ≤ engine.remaining stdin := by
  have progress (state : Engine σ) (holds : Running ctx emit stdin sink state)
      (unfinished : ¬ (state.Finished ∨ state.Blocked ctx emit)) :
      ∃ label next, label.willing = true ∧ state.step ctx emit label = some next ∧
        Running ctx emit stdin sink next ∧ next.remaining stdin < state.remaining stdin := by
    obtain ⟨label, willing, enabled⟩ := engine_goes_on positive holds
      (fun finished => unfinished (Or.inl finished)) (fun blocked => unfinished (Or.inr blocked))
    obtain ⟨next, taken⟩ := Option.isSome_iff_exists.mp enabled
    exact ⟨label, next, willing, taken, step_running positive holds taken,
      willing_lowers positive willing holds taken⟩
  obtain ⟨rest, final, willing, ran, _, finished, short⟩ := Schedules.reaches_goal progress running
  exact ⟨rest, final, willing, ran, finished, short⟩

/-- The ring bounds what is left of the queue, the input what is left of the rest. -/
theorem remaining_bounded {capacity : Nat} {stdin : List Byte} {sink : σ} {engine : Engine σ}
    (running : Running ctx emit stdin sink engine)
    (room : engine.threads.queue.capacity = capacity) :
    engine.remaining stdin ≤ 17 * stdin.length + 5 * capacity + 62 := by
  have input : engine.threads.input.length ≤ stdin.length := by
    rw [← running.paired.input, List.length_append]
    exact Nat.le_add_left _ _
  have reader : engine.threads.reader.point.rank ≤ 30 := by
    cases engine.threads.reader.point <;> simp [ReaderPoint.rank]
  have writer : engine.threads.writer.rank ≤ 6 := by
    cases engine.threads.writer <;> simp [WriterPoint.rank]
  have producer : engine.threads.queue.producer.rank ≤ 4 := by
    cases engine.threads.queue.producer with
    | asleep woken => cases woken <;> simp [ProducerPoint.rank]
    | _ => simp [ProducerPoint.rank]
  have consumer : engine.threads.queue.consumer.rank ≤ 3 := by
    cases engine.threads.queue.consumer with
    | asleep woken => cases woken <;> simp [ConsumerPoint.rank]
    | _ => simp [ConsumerPoint.rank]
  have bounded := running.paired.consistent.bounded
  have waits : (if engine.threads.reader.point.waits then 16 else 0) ≤ 16 := by split <;> omega
  simp only [Engine.remaining, Engine.potential, Pipeline.potential, Queue.rank]
  omega

/-- From every state of every run, whatever has failed and whatever signals arrived, a
bounded number of steps of the reader and the writer leads to the return of both, or to
a call of the descriptor that does not return: nothing else can keep the threads. -/
theorem engine_can_finish {capacity : Nat} (capacityPositive : 0 < capacity)
    (chunkPositive : 0 < ctx.chunkSize) (policy : Policy) (blocks : Nat → List Byte)
    (stdin : List Byte) (sink : σ) (schedule : List EngineLabel) (middle : Engine σ)
    (completed : Schedules.run (Engine.step ctx emit)
      (Engine.start capacity policy blocks stdin sink) schedule = some middle) :
    ∃ rest final, (∀ label ∈ rest, label.willing = true) ∧
      Schedules.run (Engine.step ctx emit) middle rest = some final ∧
      (final.Finished ∨ final.Blocked ctx emit) ∧
      rest.length ≤ 17 * stdin.length + 5 * capacity + 62 := by
  have running : Running ctx emit stdin sink middle :=
    Schedules.run_invariant (fun _ _ _ => step_running chunkPositive)
      (start_running capacityPositive policy blocks stdin sink) completed
  obtain ⟨rest, final, willing, ran, finished, short⟩ :=
    finish_within_reach chunkPositive running
  have bounded := remaining_bounded running (engine_capacity completed)
  exact ⟨rest, final, willing, ran, finished, Nat.le_trans short bounded⟩

/-- The reader that has dropped a line, with the writer in the middle of the other,
can be brought to its end. -/
theorem dropped_line_finishes :
    ∃ middle rest final, Schedules.run (Engine.step (bareWriter 2) takeAll)
        (Engine.start 1 .drop (fun _ => []) [0x61, newline, 0x62, newline] ()) droppedLine =
          some middle ∧
      Schedules.run (Engine.step (bareWriter 2) takeAll) middle rest = some final ∧
      final.Finished ∧ rest.length ≤ 17 * 4 + 5 * 1 + 62 := by
  have ran : (Schedules.run (Engine.step (bareWriter 2) takeAll)
      (Engine.start 1 .drop (fun _ => []) [0x61, newline, 0x62, newline] ()) droppedLine).isSome =
        true := by decide
  obtain ⟨middle, completed⟩ := Option.isSome_iff_exists.mp ran
  obtain ⟨rest, final, _, following, ended, short⟩ := engine_can_finish Nat.one_pos (by decide)
    .drop (fun _ => []) [0x61, newline, 0x62, newline] () droppedLine middle completed
  have finished := ended.resolve_right (answers_unblocked (fun _ _ => rfl) final)
  exact ⟨middle, rest, final, completed, following, finished, short⟩

/-! ### Runs without a fault and without a signal -/

/-- No call of the reader fails. -/
def EngineLabel.faultless : EngineLabel → Bool
  | .thread label => label.faultless
  | .turn => true

/-- No signal arrives. -/
def EngineLabel.unsignalled : EngineLabel → Bool
  | .thread label => label.unsignalled
  | .turn => true

/-- The way to the end needs no fault and no signal. -/
theorem willing_quiet {label : EngineLabel} (willing : label.willing = true) :
    label.faultless = true ∧ label.unsignalled = true := by
  cases label with
  | turn => exact ⟨rfl, rfl⟩
  | thread label =>
    simp only [EngineLabel.willing] at willing
    simp only [EngineLabel.faultless, EngineLabel.unsignalled]
    cases label with
    | call event =>
      cases event with
      | read result => cases result <;> simp_all [PipelineLabel.willing, PipelineLabel.faultless,
          PipelineLabel.unsignalled]
      | _ => simp_all [PipelineLabel.willing, PipelineLabel.faultless, PipelineLabel.unsignalled]
    | finalizeLoad party =>
      cases party <;> simp_all [PipelineLabel.willing, PipelineLabel.faultless,
        PipelineLabel.unsignalled]
    | _ => simp_all [PipelineLabel.willing, PipelineLabel.faultless, PipelineLabel.unsignalled]

/-- Handing over records from this side of the descriptor never fails. -/
def Unfailing (emit : σ → List Byte → Option (σ × Errno)) (sink : σ) : Prop :=
  ∀ records done last err, emitRecords emit sink records = some (done, last, err) → err = .ok

/-- Where every write succeeds handing over records does. -/
theorem succeeding_unfailing (succeeds : WritesSucceed emit) (sink : σ) : Unfailing emit sink := by
  intro records done last err emitted
  have handing := emit_handing emitted
  clear emitted
  induction handing with
  | nothing => rfl
  | refused sink record rest next err written failed =>
    obtain ⟨other, always⟩ := succeeds sink record.encoded
    rw [always] at written
    exact (Prod.mk.inj (Option.some.inj written)).2.symm
  | taken sink record rest next done final err written others ih => exact ih

/-- A turn that cannot fail leaves the threads. -/
theorem turn_kept {sink : σ} (unfailing : Unfailing emit sink) {engine next : Engine σ}
    (feeding : Feeding ctx emit sink engine) (taken : engine.step ctx emit .turn = some next) :
    next.threads = engine.threads := by
  cases turn_cases taken with
  | carried | wrote => rfl
  | failed turn payload last err running _ _ _ emitted failing =>
    have handed := emit_records_last (feeding.written (Or.inl running)) emitted
    exact absurd (unfailing _ _ _ _ handed) failing

/-- A writer that cannot fail goes on. -/
theorem unfailing_going {sink : σ} (unfailing : Unfailing emit sink) {engine : Engine σ}
    (feeding : Feeding ctx emit sink engine) : engine.Going := by
  by_contra stopped
  obtain ⟨failing, written, _⟩ := feeding.failed stopped
  exact failing (unfailing _ _ _ _ written)

/-- What holds of the engine while nothing fails. -/
structure Unbroken (ctx : WriterCtx) (emit : σ → List Byte → Option (σ × Errno))
    (stdin : List Byte) (sink : σ) (engine : Engine σ) : Prop where
  running : Running ctx emit stdin sink engine
  coupled : Coupled ctx.chunkSize stdin engine.threads
  drained : engine.threads.Drained
  unsignalled : Unsignalled engine.threads

/-- Every step without a fault and without a signal keeps this. -/
theorem step_unbroken (positive : 0 < ctx.chunkSize) {stdin : List Byte} {sink : σ}
    (unfailing : Unfailing emit sink) {engine next : Engine σ} {label : EngineLabel}
    (unbroken : Unbroken ctx emit stdin sink engine)
    (quiet : label.faultless = true ∧ label.unsignalled = true)
    (taken : engine.step ctx emit label = some next) : Unbroken ctx emit stdin sink next := by
  have running := step_running positive unbroken.running taken
  obtain ⟨before, coupled, drained, unsignalled⟩ := unbroken
  cases label with
  | thread step =>
    have stepped := (thread_cases taken).2.2.1
    have settles : engine.threads.Settles step := unsignalled_settles unsignalled step
    exact ⟨running, step_coupled positive coupled quiet.1 stepped,
      step_drained positive coupled drained settles quiet.1 stepped,
      step_unsignalled positive coupled drained unsignalled quiet.1 quiet.2 stepped⟩
  | turn =>
    have same := turn_kept unfailing before.feeding taken
    exact ⟨running, same ▸ coupled, same ▸ drained, same ▸ unsignalled⟩

/-- A run without a fault and without a signal. -/
theorem run_unbroken {capacity : Nat} (capacityPositive : 0 < capacity)
    (chunkPositive : 0 < ctx.chunkSize) {blocks : Nat → List Byte} {stdin : List Byte} {sink : σ}
    (unfailing : Unfailing emit sink) {schedule : List EngineLabel}
    {final : Engine σ}
    (completed : Schedules.run (Engine.step ctx emit)
      (Engine.start capacity .wait blocks stdin sink) schedule = some final)
    (quiet : ∀ label ∈ schedule, label.faultless = true ∧ label.unsignalled = true) :
    Unbroken ctx emit stdin sink final := by
  have start : Unbroken ctx emit stdin sink (Engine.start capacity .wait blocks stdin sink) :=
    ⟨start_running capacityPositive .wait blocks stdin sink,
      start_coupled capacityPositive ctx.chunkSize blocks stdin,
      start_drained capacity blocks stdin, start_unsignalled capacity blocks stdin⟩
  exact Schedules.run_guarded_invariant (fun _ _ _ => step_unbroken chunkPositive unfailing) start
    (Schedules.along_of_forall quiet) completed

/-- When both have returned the writer has taken the whole input and written all of it
that a newline ended. -/
theorem unbroken_finished {stdin : List Byte} {sink : σ} (unfailing : Unfailing emit sink)
    {engine : Engine σ} (unbroken : Unbroken ctx emit stdin sink engine)
    (finished : engine.Finished) :
    engine.taken.flatten = stdin ∧ engine.status = .ok ∧
      Cutting.feed ctx.chunkSize newline [] (Cutting.markBlocks ctx.chunkSize engine.taken) =
        (payloads engine.writer, engine.writer.overflow) := by
  obtain ⟨running, coupled, drained, unsignalled⟩ := unbroken
  have left : engine.threads.writer ≠ .running := by simp [finished.2]
  have going := unfailing_going unfailing running.feeding
  obtain ⟨taken, succeeded, cut⟩ := left_going running.feeding going left
  have consumed : engine.threads.input = [] := unsignalled.ended (Or.inl (Or.inr finished.1))
  refine ⟨?_, succeeded, cut⟩
  rw [taken, (drained left).2.2, coupled.committed, returned_committed coupled.fills finished.1,
    ← coupled.input, consumed, List.append_nil]

/-- The writer has handed over one record for each of these lines, in order, and reports
no error. -/
structure Delivered (emit : σ → List Byte → Option (σ × Errno)) (sink : σ)
    (lines : List (List Byte)) (engine : Engine σ) : Prop where
  lines : payloads engine.writer = lines
  handed : emitRecords emit sink engine.writer.records =
    some (engine.writer.records, engine.writer.sink, .ok)
  status : engine.status = .ok

/-- Where both have returned, the records are the lines of an input of short lines. -/
theorem lines_delivered {sink : σ} (unfailing : Unfailing emit sink) {lines : List (List Byte)}
    (plain : ∀ line ∈ lines, newline ∉ line) (short : ∀ line ∈ lines, line.length < ctx.chunkSize)
    {engine : Engine σ}
    (unbroken : Unbroken ctx emit (lines.flatMap fun line => line ++ [newline]) sink engine)
    (finished : engine.Finished) : Delivered emit sink lines engine := by
  obtain ⟨whole, succeeded, cut⟩ := unbroken_finished unfailing unbroken finished
  have feeding := unbroken.running.feeding
  have pieces := Cutting.feed_short_lines newline lines plain short
    (Cutting.markBlocks ctx.chunkSize engine.taken) (by rw [Cutting.mark_blocks_items, whole])
  rw [cut] at pieces
  exact ⟨congrArg Prod.fst pieces, feeding.written (unfailing_going unfailing feeding), succeeded⟩

/-- Over an input of lines shorter than a chunk, and where neither a call of the reader
nor a write fails and no signal arrives, every run under the waiting policy, wherever it
stands, can be finished unless a write does not return; and wherever it has finished the
records handed over are the lines of the input, each once and in order. -/
theorem engine_delivers {capacity : Nat} (capacityPositive : 0 < capacity)
    (chunkPositive : 0 < ctx.chunkSize) (sink : σ) (unfailing : Unfailing emit sink)
    (blocks : Nat → List Byte) (lines : List (List Byte))
    (plain : ∀ line ∈ lines, newline ∉ line) (short : ∀ line ∈ lines, line.length < ctx.chunkSize)
    (schedule : List EngineLabel) (middle : Engine σ)
    (completed : Schedules.run (Engine.step ctx emit)
      (Engine.start capacity .wait blocks (lines.flatMap fun line => line ++ [newline]) sink)
      schedule = some middle)
    (quiet : ∀ label ∈ schedule, label.faultless = true ∧ label.unsignalled = true) :
    (middle.Finished → Delivered emit sink lines middle) ∧
      ∃ rest final, Schedules.run (Engine.step ctx emit) middle rest = some final ∧
        (final.Finished ∧ Delivered emit sink lines final ∨ final.Blocked ctx emit) ∧
        rest.length ≤ 17 * (lines.flatMap fun line => line ++ [newline]).length +
          5 * capacity + 62 := by
  have unbroken := run_unbroken capacityPositive chunkPositive unfailing completed quiet
  refine ⟨lines_delivered unfailing plain short unbroken, ?_⟩
  obtain ⟨rest, final, willing, ran, ended, steps⟩ :=
    finish_within_reach chunkPositive unbroken.running
  have after : Unbroken ctx emit (lines.flatMap fun line => line ++ [newline]) sink final :=
    Schedules.run_guarded_invariant (fun _ _ _ => step_unbroken chunkPositive unfailing) unbroken
      (Schedules.along_of_forall fun label member => willing_quiet (willing label member)) ran
  have bounded := remaining_bounded unbroken.running (engine_capacity completed)
  refine ⟨rest, final, ran, ended.imp_left fun finished => ?_, Nat.le_trans steps bounded⟩
  exact ⟨finished, lines_delivered unfailing plain short after finished⟩

/-- The line `a` is delivered. -/
theorem one_line_delivered :
    ∃ final, Schedules.run (Engine.step (bareWriter 4) takeAll)
        (Engine.start 1 .wait (fun _ => []) [0x61, newline] ()) oneLine = some final ∧
      Delivered takeAll () [[0x61]] final := by
  have ran : (Schedules.run (Engine.step (bareWriter 4) takeAll)
      (Engine.start 1 .wait (fun _ => []) [0x61, newline] ()) oneLine).map
        (fun final => (final.threads.reader.point, final.threads.writer)) =
          some (.returned, .returned) := by decide
  obtain ⟨final, completed, points⟩ := Option.map_eq_some_iff.mp ran
  obtain ⟨past, left⟩ := Prod.mk.inj points
  have delivered := (@engine_delivers Unit (bareWriter 4) takeAll 1 Nat.one_pos (by decide)
    () (succeeding_unfailing take_all_succeeds ()) (fun _ => []) [[0x61]] (by decide)
    (by decide) oneLine final completed (by decide)).1 ⟨past, left⟩
  exact ⟨final, completed, delivered⟩

end Runs

end JPipe
