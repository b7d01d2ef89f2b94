import JPipe.Completion
import JPipe.Flushing
import Mathlib.Data.List.Basic

/-!
# What one thread does without the other

Situations in which a thread needs nobody else. Under the dropping policy the
reader never sleeps on a full ring, so its end is within reach by its own steps
wherever the writer stands, even stuck in a write. While the reader waits for
the poller the writer, by its own steps, writes every complete line that was read.
And once the queue is finalized it writes everything the reader has committed
until then and returns. Only the descriptor can keep the writer from it: by a
write that fails, or by one that does not return.
-/

namespace JPipe

/-! ### The reader under the dropping policy -/

/-- Under the dropping policy no step puts the producer to sleep. -/
theorem step_stays_awake {β : Type} {queue next : Queue β} {label : QueueLabel β}
    (drops : queue.policy = .drop) (awake : ∀ woken, queue.producer ≠ .asleep woken)
    (taken : queue.step label = some next) : ∀ woken, next.producer ≠ .asleep woken := by
  have signalled (woken : Bool) : queue.producer.signal ≠ .asleep woken := by
    cases point : queue.producer with
    | asleep other => exact absurd point (awake other)
    | _ => simp [ProducerPoint.signal]
  cases label with
  | pushLoadActive =>
    obtain ⟨_, ⟨_, rfl⟩ | ⟨_, rfl⟩⟩ := push_load_active_cases taken <;> simp
  | pushLoadLength =>
    obtain ⟨_, ⟨_, rfl⟩ | ⟨_, rfl⟩⟩ := push_load_length_cases taken <;> simp
  | pushLocked =>
    obtain ⟨_, ⟨waits, _⟩ | ⟨_, rfl⟩ | ⟨_, _, _, rfl⟩ | ⟨_, _, rfl⟩⟩ := push_locked_cases taken
    · simp [drops] at waits
    · simp
    · simp
    · simp
  | wakeProducer => exact absurd (wake_producer_cases taken).1 (awake false)
  | fill content =>
    obtain ⟨slot, _, rfl⟩ := fill_cases taken
    exact awake
  | pushCommit =>
    obtain ⟨slot, _, rfl⟩ := push_commit_cases taken
    simp
  | popLoadLength | popLocked | wakeConsumer | popRead =>
    obtain ⟨point, rfl⟩ := pop_moves rfl (by simp) taken
    exact awake
  | popCommit =>
    obtain ⟨slot, content, _, rfl⟩ := pop_commit_cases taken
    exact signalled
  | finalizeLoad =>
    obtain ⟨_, rfl⟩ | ⟨_, rfl⟩ := finalize_load_cases taken <;> exact awake
  | finalizeLocked =>
    obtain ⟨_, rfl⟩ := finalize_locked_cases taken
    exact signalled

/-- The queue drops, and its producer is awake. -/
def Queue.NeverSleeps {β : Type} (queue : Queue β) : Prop :=
  queue.policy = .drop ∧ ∀ woken, queue.producer ≠ .asleep woken

/-- A queue that drops and whose producer is awake is such a queue after every step: only
under the waiting policy does a producer fall asleep. -/
theorem step_never_sleeps {β : Type} {queue next : Queue β} {label : QueueLabel β}
    (never : queue.NeverSleeps) (taken : queue.step label = some next) : next.NeverSleeps :=
  ⟨step_policy never.1 taken, step_stays_awake never.1 never.2 taken⟩

section Runs

variable {σ : Type} {ctx : WriterCtx} {emit : σ → List Byte → Option (σ × Errno)}

/-- What a step of the engine keeps of the queue. -/
theorem engine_never_sleeps {engine next : Engine σ} {label : EngineLabel}
    (never : engine.threads.queue.NeverSleeps)
    (taken : engine.step ctx emit label = some next) : next.threads.queue.NeverSleeps :=
  @engine_keeps σ ctx emit (fun state => state.queue.NeverSleeps)
    (fun _ _ _ => step_keeps fun _ _ _ => step_never_sleeps) _ _ _ never taken

/-- Under the dropping policy the reader never sleeps in its call of the queue, and
from every state of every run a bounded number of its own steps leads to its return,
wherever the writer stands. -/
theorem dropping_reader_alone {capacity : Nat} (capacityPositive : 0 < capacity)
    (chunkPositive : 0 < ctx.chunkSize) (blocks : Nat → List Byte) (stdin : List Byte) (sink : σ)
    (schedule : List EngineLabel) (middle : Engine σ)
    (completed : Schedules.run (Engine.step ctx emit)
      (Engine.start capacity .drop blocks stdin sink) schedule = some middle) :
    (∀ woken, middle.threads.queue.producer ≠ .asleep woken) ∧
      ∃ rest final, (∀ label ∈ rest, label.willing = true ∧ label.party = .reader) ∧
        Schedules.run (Engine.step ctx emit) middle rest = some final ∧
        final.threads.reader.point = .returned ∧
        rest.length ≤ 17 * stdin.length + 5 * capacity + 62 := by
  have running : Running ctx emit stdin sink middle :=
    Schedules.run_invariant (fun _ _ _ => step_running chunkPositive)
      (start_running capacityPositive .drop blocks stdin sink) completed
  have start : (Engine.start capacity .drop blocks stdin sink).threads.queue.NeverSleeps :=
    ⟨rfl, by simp [Engine.start, Pipeline.start, jpQueueCreate]⟩
  have never : middle.threads.queue.NeverSleeps :=
    Schedules.run_invariant (fun _ _ _ => engine_never_sleeps) start completed
  have progress (state : Engine σ)
      (holds : Running ctx emit stdin sink state ∧ state.threads.queue.NeverSleeps)
      (unfinished : ¬ state.threads.reader.point = .returned) :
      ∃ label next, (label.willing = true ∧ label.party = .reader) ∧
        state.step ctx emit label = some next ∧
        (Running ctx emit stdin sink next ∧ next.threads.queue.NeverSleeps) ∧
        next.remaining stdin < state.remaining stdin := by
    obtain ⟨label, willing, readers, enabled⟩ := reader_goes_on chunkPositive holds.1.paired
      holds.1.attended unfinished fun _ => holds.2.2 false
    obtain ⟨next, taken⟩ := Option.isSome_iff_exists.mp
      (@reader_step_goes_on σ ctx emit state label willing readers enabled)
    exact ⟨.thread label, next, ⟨willing, readers⟩, taken,
      ⟨step_running chunkPositive holds.1 taken, engine_never_sleeps holds.2 taken⟩,
      @willing_lowers σ ctx emit chunkPositive _ _ _ _ (.thread label) willing holds.1 taken⟩
  obtain ⟨rest, final, own, ran, _, returned, steps⟩ :=
    Schedules.reaches_goal progress ⟨running, never⟩
  have bounded := remaining_bounded running (engine_capacity completed)
  exact ⟨never.2, rest, final, own, ran, returned, Nat.le_trans steps bounded⟩

/-- The reader of the dropped line returns with the writer in the middle of a block. -/
theorem dropped_line_reader_returns :
    ∃ middle rest final, Schedules.run (Engine.step (bareWriter 2) takeAll)
        (Engine.start 1 .drop (fun _ => []) [0x61, newline, 0x62, newline] ()) droppedLine =
          some middle ∧
      Schedules.run (Engine.step (bareWriter 2) takeAll) middle rest = some final ∧
      final.threads.reader.point = .returned := by
  have ran : (Schedules.run (Engine.step (bareWriter 2) takeAll)
      (Engine.start 1 .drop (fun _ => []) [0x61, newline, 0x62, newline] ()) droppedLine).isSome =
        true := by decide
  obtain ⟨middle, completed⟩ := Option.isSome_iff_exists.mp ran
  obtain ⟨_, rest, final, _, following, returned, _⟩ := dropping_reader_alone Nat.one_pos
    (by decide) (fun _ => []) [0x61, newline, 0x62, newline] () droppedLine middle completed
  exact ⟨middle, rest, final, completed, following, returned⟩

/-! ### The writer without the reader -/

/-- The steps of the writer leave the reader. -/
theorem writer_step_reader {chunkSize : Nat} {state next : Pipeline} {label : PipelineLabel}
    (writers : label.party = .writer) (taken : state.step chunkSize label = some next) :
    next.reader = state.reader := by
  cases step_moves taken with
  | popped | writeFailed | entered => rfl
  | found party queue _ _ _ _ leaves | finalized party queue _ _ _ _ leaves =>
    obtain rfl : party = .writer := writers
    cases leaves
    rfl
  | _ => simp [PipelineLabel.party] at writers

/-- A turn leaves the threads, or its write fails and only the writer moves. -/
theorem turn_keeps_or_stops {engine next : Engine σ}
    (taken : engine.step ctx emit .turn = some next) :
    next.threads = engine.threads ∨
      ¬ next.Going ∧ next.threads.reader = engine.threads.reader := by
  cases turn_cases taken with
  | carried | wrote => exact Or.inl rfl
  | failed turn payload last err running unread =>
    obtain ⟨slot, content, point⟩ := unread_reading unread
    exact Or.inr ⟨by simp [Engine.Going, point, ConsumerPoint.read], rfl⟩

/-- A writer alone with the queue: where it leaves its loop with every record written, all
there was is popped. -/
structure Draining (ctx : WriterCtx) (emit : σ → List Byte → Option (σ × Errno))
    (stdin : List Byte) (sink : σ) (reader : Reader) (engine : Engine σ) : Prop where
  running : Running ctx emit stdin sink engine
  frozen : engine.threads.reader = reader
  drained : engine.Going → engine.threads.writer ≠ .running →
    engine.threads.queue.popped = reader.committed

/-- The descriptor keeps the writer from going on: a write does not return, or one has
failed. -/
def Engine.Hindered (ctx : WriterCtx) (emit : σ → List Byte → Option (σ × Errno))
    (engine : Engine σ) : Prop :=
  engine.Blocked ctx emit ∨ ¬ engine.Going

/-- Every step of a writer none of whose writes has failed keeps this. -/
theorem step_draining (positive : 0 < ctx.chunkSize) {stdin : List Byte} {sink : σ}
    {reader : Reader} {engine next : Engine σ} {label : EngineLabel}
    (draining : Draining ctx emit stdin sink reader engine) (going : engine.Going)
    (willing : label.willing = true) (writers : label.party = .writer)
    (taken : engine.step ctx emit label = some next) :
    Draining ctx emit stdin sink reader next := by
  have running := step_running positive draining.running taken
  have consistent := draining.running.paired.consistent
  cases label with
  | turn =>
    rcases turn_keeps_or_stops taken with same | ⟨stopped, same⟩
    · exact ⟨running, same ▸ draining.frozen, fun _ => same ▸ draining.drained going⟩
    · exact ⟨running, same.trans draining.frozen, fun goes => absurd goes stopped⟩
  | thread label =>
    have stepped := (thread_cases taken).2.2.1
    have frozen : next.threads.reader = reader :=
      (writer_step_reader writers stepped).trans draining.frozen
    refine ⟨running, frozen, fun _ left => ?_⟩
    by_cases before : engine.threads.writer = .running
    · obtain ⟨rfl, empty, _⟩ := leaving_step before left (willing_quiet willing).1 stepped
      obtain ⟨_, moved, _⟩ := pop_step taken
      obtain ⟨committed, popped⟩ := step_history moved (by simp) (by simp)
      rw [popped, empty_popped consistent empty, draining.running.paired.committed,
        draining.frozen]
    · rw [(left_step before stepped).2]
      exact draining.drained going before

/-- A writer that is not hindered goes on unless it has returned or sleeps, and has less
to do then. -/
theorem draining_goes_on (positive : 0 < ctx.chunkSize) {stdin : List Byte} {sink : σ}
    {reader : Reader} {engine : Engine σ} (draining : Draining ctx emit stdin sink reader engine)
    (unhindered : ¬ engine.Hindered ctx emit)
    (unreturned : engine.threads.writer ≠ .returned)
    (awake : engine.threads.queue.consumer ≠ .asleep false) :
    ∃ label next, (label.willing = true ∧ label.party = .writer) ∧
      engine.step ctx emit label = some next ∧ Draining ctx emit stdin sink reader next ∧
      next.remaining stdin < engine.remaining stdin := by
  obtain ⟨unblocked, going⟩ := not_or.mp unhindered
  obtain ⟨label, willing, writers, enabled⟩ :=
    writer_goes_on unblocked draining.running.attended unreturned awake
  obtain ⟨next, taken⟩ := Option.isSome_iff_exists.mp enabled
  exact ⟨label, next, ⟨willing, writers⟩, taken,
    step_draining positive draining (not_not.mp going) willing writers taken,
    willing_lowers positive willing draining.running taken⟩

/-- While the reader waits for the poller, a bounded number of the writer's own steps leads
from every state of every run under the waiting policy in which it is in its loop to an
empty ring, with every complete line that was read written and the line in progress in
the overflow, unless a write fails or does not return on the way. The lines and the part
of one more that were read are shorter than a chunk. -/
theorem waiting_reader_flushed {capacity : Nat} (capacityPositive : 0 < capacity)
    (chunkPositive : 0 < ctx.chunkSize) (sink : σ) (blocks : Nat → List Byte) (stdin : List Byte)
    (schedule : List EngineLabel) (middle : Engine σ)
    (completed : Schedules.run (Engine.step ctx emit)
      (Engine.start capacity .wait blocks stdin sink) schedule = some middle)
    (waiting : middle.threads.reader.point = .wait) (looping : middle.threads.writer = .running)
    (lines : List (List Byte)) (part : List Byte)
    (read : middle.threads.reader.bytesRead =
      lines.flatMap (fun line => line ++ [newline]) ++ part)
    (plain : ∀ line ∈ lines, newline ∉ line) (short : ∀ line ∈ lines, line.length < ctx.chunkSize)
    (partPlain : newline ∉ part) (partShort : part.length < ctx.chunkSize) :
    ∃ rest final, (∀ label ∈ rest, label.willing = true ∧ label.party = .writer) ∧
      Schedules.run (Engine.step ctx emit) middle rest = some final ∧
      final.threads.reader = middle.threads.reader ∧
      rest.length ≤ 17 * stdin.length + 5 * capacity + 62 ∧
      (final.threads.queue.length = 0 ∧ payloads final.writer = lines ∧
          final.writer.overflow = part ∧
          emitRecords emit sink final.writer.records =
            some (final.writer.records, final.writer.sink, .ok) ∨
        final.Hindered ctx emit) := by
  have running : Running ctx emit stdin sink middle :=
    Schedules.run_invariant (fun _ _ _ => step_running chunkPositive)
      (start_running capacityPositive .wait blocks stdin sink) completed
  have progress (state : Engine σ)
      (draining : Draining ctx emit stdin sink middle.threads.reader state)
      (unfinished : ¬ (state.threads.queue.length = 0 ∨ state.Hindered ctx emit)) :
      ∃ label next, (label.willing = true ∧ label.party = .writer) ∧
        state.step ctx emit label = some next ∧
        Draining ctx emit stdin sink middle.threads.reader next ∧
        next.remaining stdin < state.remaining stdin := by
    obtain ⟨some, unhindered⟩ := not_or.mp unfinished
    have going := not_not.mp (not_or.mp unhindered).2
    have unreturned : state.threads.writer ≠ .returned := by
      intro returned
      apply some (popped_empty draining.running.paired.consistent _)
      rw [draining.drained going (by simp [returned]), draining.running.paired.committed,
        draining.frozen]
    exact draining_goes_on chunkPositive draining unhindered unreturned fun asleep =>
      some (draining.running.rested.consumer asleep).2
  have start : Draining ctx emit stdin sink middle.threads.reader middle :=
    ⟨running, rfl, fun _ left => absurd looping left⟩
  obtain ⟨rest, final, own, ran, drained, ended, steps⟩ := Schedules.reaches_goal progress start
  have bounded := remaining_bounded running (engine_capacity completed)
  obtain ⟨past, filling⟩ := engine_run_filling chunkPositive completed
  have frozen := drained.frozen
  refine ⟨rest, final, own, ran, frozen, Nat.le_trans steps bounded, ?_⟩
  by_cases hindered : final.Hindered ctx emit
  · exact Or.inr hindered
  · have empty := ended.resolve_right hindered
    have going := not_not.mp (not_or.mp hindered).2
    exact Or.inl ⟨empty, waiting_written drained.running.paired drained.running.feeding
      (frozen.symm ▸ filling) (frozen.symm ▸ waiting) empty going (frozen.symm ▸ read) plain
      short partPlain partShort⟩

/-- A descriptor that answers every call with success hinders the writer in no run. -/
theorem succeeding_unhindered {capacity : Nat} (capacityPositive : 0 < capacity)
    (chunkPositive : 0 < ctx.chunkSize) (succeeds : WritesSucceed emit) {policy : Policy}
    {blocks : Nat → List Byte} {stdin : List Byte} {sink : σ} {schedule rest : List EngineLabel}
    {middle final : Engine σ}
    (completed : Schedules.run (Engine.step ctx emit)
      (Engine.start capacity policy blocks stdin sink) schedule = some middle)
    (following : Schedules.run (Engine.step ctx emit) middle rest = some final) :
    ¬ final.Hindered ctx emit := by
  have answers : Answers emit := by
    intro sink encoded
    obtain ⟨next, written⟩ := succeeds sink encoded
    rw [written]
    rfl
  have whole : Schedules.run (Engine.step ctx emit)
      (Engine.start capacity policy blocks stdin sink) (schedule ++ rest) = some final := by
    rw [Schedules.run_append, completed, Option.bind_some, following]
  have feeding := (engine_run_feeding capacityPositive chunkPositive policy blocks stdin sink
    whole).2
  rintro (blocked | stopped)
  · exact answers_unblocked answers final blocked
  · exact stopped (unfailing_going (succeeding_unfailing succeeds sink) feeding)

/-- A line and the first byte of the next are committed before the writer has looked. -/
def waitingLine : List EngineLabel :=
  [.thread (.call (.created .ok)), .thread (.call (.registered .ok)),
    .thread (.call (.waited .ok)), .thread (.push .pushLoadActive),
    .thread (.push .pushLoadLength), .thread (.call (.read (.data [0x61, newline, 0x62]))),
    .thread (.call (.read .eagain)), .thread .commit]

/-- The writer writes the line while the reader waits for the rest of the next. -/
theorem waiting_line_flushed :
    ∃ middle rest final, Schedules.run (Engine.step (bareWriter 4) takeAll)
        (Engine.start 1 .wait (fun _ => []) [0x61, newline, 0x62, 0x63] ()) waitingLine =
          some middle ∧
      Schedules.run (Engine.step (bareWriter 4) takeAll) middle rest = some final ∧
      payloads final.writer = [[0x61]] ∧ final.writer.overflow = [0x62] := by
  have ran : (Schedules.run (Engine.step (bareWriter 4) takeAll)
      (Engine.start 1 .wait (fun _ => []) [0x61, newline, 0x62, 0x63] ()) waitingLine).map
        (fun middle => (middle.threads.reader.point, middle.threads.writer,
          middle.threads.reader.bytesRead)) = some (.wait, .running, [0x61, newline, 0x62]) := by
    decide
  obtain ⟨middle, completed, seen⟩ := Option.map_eq_some_iff.mp ran
  simp only [Prod.mk.injEq] at seen
  obtain ⟨waiting, looping, read⟩ := seen
  obtain ⟨rest, final, _, following, _, _, ended⟩ := waiting_reader_flushed Nat.one_pos
    (by decide) () (fun _ => []) [0x61, newline, 0x62, 0x63] waitingLine middle completed waiting
    looping [[0x61]] [0x62] read (by decide) (by decide) (by decide) (by decide)
  obtain ⟨_, written, held, _⟩ := ended.resolve_right
    (succeeding_unhindered Nat.one_pos (by decide) take_all_succeeds completed following)
  exact ⟨middle, rest, final, completed, following, written, held⟩

/-- Once the queue is finalized a bounded number of the writer's own steps leads from every
state of every run in which it is in its loop to its return, with everything written that
the reader had committed, unless a write fails or does not return on the way. -/
theorem finalized_writer_drains {capacity : Nat} (capacityPositive : 0 < capacity)
    (chunkPositive : 0 < ctx.chunkSize) (sink : σ) (policy : Policy) (blocks : Nat → List Byte)
    (stdin : List Byte) (schedule : List EngineLabel) (middle : Engine σ)
    (completed : Schedules.run (Engine.step ctx emit)
      (Engine.start capacity policy blocks stdin sink) schedule = some middle)
    (finalized : middle.threads.queue.active = false)
    (looping : middle.threads.writer = .running) :
    ∃ rest final, (∀ label ∈ rest, label.willing = true ∧ label.party = .writer) ∧
      Schedules.run (Engine.step ctx emit) middle rest = some final ∧
      rest.length ≤ 17 * stdin.length + 5 * capacity + 62 ∧
      (final.threads.writer = .returned ∧ final.status = .ok ∧
          (payloads final.writer, final.writer.overflow) = Cutting.feed ctx.chunkSize newline []
            (Cutting.markBlocks ctx.chunkSize middle.threads.reader.committed) ∧
          emitRecords emit sink final.writer.records =
            some (final.writer.records, final.writer.sink, .ok) ∨
        final.Hindered ctx emit) := by
  have running : Running ctx emit stdin sink middle :=
    Schedules.run_invariant (fun _ _ _ => step_running chunkPositive)
      (start_running capacityPositive policy blocks stdin sink) completed
  have progress (state : Engine σ)
      (holds : Draining ctx emit stdin sink middle.threads.reader state ∧
        state.threads.queue.active = false)
      (unfinished : ¬ (state.threads.writer = .returned ∨ state.Hindered ctx emit)) :
      ∃ label next, (label.willing = true ∧ label.party = .writer) ∧
        state.step ctx emit label = some next ∧
        (Draining ctx emit stdin sink middle.threads.reader next ∧
          next.threads.queue.active = false) ∧
        next.remaining stdin < state.remaining stdin := by
    obtain ⟨draining, inactive⟩ := holds
    obtain ⟨unreturned, unhindered⟩ := not_or.mp unfinished
    obtain ⟨label, next, own, taken, following, lower⟩ := draining_goes_on chunkPositive draining
      unhindered unreturned fun asleep => by
        simp [(draining.running.rested.consumer asleep).1] at inactive
    have stays : next.threads.queue.active = false :=
      @engine_keeps σ ctx emit (fun threads => threads.queue.active = false)
        (fun _ _ _ => step_keeps fun _ _ _ => finalized_stays) _ _ _ inactive taken
    exact ⟨label, next, own, taken, ⟨following, stays⟩, lower⟩
  have start : Draining ctx emit stdin sink middle.threads.reader middle :=
    ⟨running, rfl, fun _ left => absurd looping left⟩
  obtain ⟨rest, final, own, ran, ⟨drained, _⟩, ended, steps⟩ :=
    Schedules.reaches_goal progress ⟨start, finalized⟩
  have bounded := remaining_bounded running (engine_capacity completed)
  refine ⟨rest, final, own, ran, Nat.le_trans steps bounded, ?_⟩
  by_cases hindered : final.Hindered ctx emit
  · exact Or.inr hindered
  · have returned := ended.resolve_right hindered
    have going := not_not.mp (not_or.mp hindered).2
    have left : final.threads.writer ≠ .running := by simp [returned]
    have feeding := drained.running.feeding
    obtain ⟨taken, succeeded, cut⟩ := left_going feeding going left
    rw [taken, drained.drained going left] at cut
    exact Or.inl ⟨returned, succeeded, cut.symm, feeding.written going⟩

/-- A line is committed and the signal arrives before the writer has looked at it. -/
def signalledLine : List EngineLabel :=
  [.thread (.call (.created .ok)), .thread (.call (.registered .ok)),
    .thread (.call (.waited .ok)), .thread (.push .pushLoadActive),
    .thread (.push .pushLoadLength), .thread (.call (.read (.data [0x61, newline]))),
    .thread (.call (.read .eagain)), .thread .commit, .thread (.finalizeLoad .watcher),
    .thread (.finalizeLocked .watcher)]

/-- The writer writes it and returns while the reader still waits for input. -/
theorem signalled_line_drained :
    ∃ middle rest final, Schedules.run (Engine.step (bareWriter 4) takeAll)
        (Engine.start 1 .wait (fun _ => []) [0x61, newline, 0x62] ()) signalledLine =
          some middle ∧
      Schedules.run (Engine.step (bareWriter 4) takeAll) middle rest = some final ∧
      final.threads.writer = .returned ∧ payloads final.writer = [[0x61]] := by
  have ran : (Schedules.run (Engine.step (bareWriter 4) takeAll)
      (Engine.start 1 .wait (fun _ => []) [0x61, newline, 0x62] ()) signalledLine).map
        (fun middle => (middle.threads.queue.active, middle.threads.writer,
          middle.threads.reader.committed)) = some (false, .running, [[0x61, newline]]) := by decide
  obtain ⟨middle, completed, seen⟩ := Option.map_eq_some_iff.mp ran
  simp only [Prod.mk.injEq] at seen
  obtain ⟨finalized, looping, committed⟩ := seen
  obtain ⟨rest, final, _, following, _, ended⟩ := finalized_writer_drains Nat.one_pos (by decide)
    () .wait (fun _ => []) [0x61, newline, 0x62] signalledLine middle completed finalized looping
  obtain ⟨returned, _, cut, _⟩ := ended.resolve_right
    (succeeding_unhindered Nat.one_pos (by decide) take_all_succeeds completed following)
  rw [committed] at cut
  exact ⟨middle, rest, final, completed, following, returned, congrArg Prod.fst cut⟩

end Runs

end JPipe
