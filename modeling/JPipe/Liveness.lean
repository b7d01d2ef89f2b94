import JPipe.Lines
import JPipe.Progress
import JPipe.Stream
import JPipe.Wakeups
import Mathlib.Data.List.Basic

/-!
# Every run can be finished

Two halves of termination. The steps of a run are paid for by the input and by
the answers the threads wait for, so no run goes on for ever on its own account.
And no run gets stuck: short of the return of the reader and the writer one of
them can take a step, whatever has failed and whatever signals arrived, so from
every state the end is within reach. Where nothing failed and no signal came,
all lines of the input have been written there.
-/

namespace JPipe

/-! ### Who answers to whom -/

/-- The calls inside of `jp_queue_finalize` are those of the parties, whoever returned
has finalized the queue, and in its loop the reader knows one of two answers. -/
structure Attended (state : Pipeline) : Prop where
  calls : state.queue.finalizing =
    state.finalizing .reader + state.finalizing .writer + state.finalizing .watcher
  reader : state.reader.point = .returned → state.queue.active = false
  writer : state.writer = .returned → state.queue.active = false
  answers : state.reader.Over ∨ state.reader.queueErr = .ok ∨
    state.reader.queueErr = .emsgShouldDrop

/-- The threads before their first step. -/
theorem start_attended (capacity : Nat) (policy : Policy) (blocks : Nat → List Byte)
    (stdin : List Byte) : Attended (Pipeline.start capacity policy blocks stdin) := by
  constructor <;> simp [Pipeline.start, jpQueueCreate, Reader.start]

/-- Only `jp_queue_finalize` finalizes. -/
theorem finalizing_kept {β : Type} {queue next : Queue β} {label : QueueLabel β}
    (noLoad : label ≠ .finalizeLoad) (noLocked : label ≠ .finalizeLocked)
    (taken : queue.step label = some next) :
    next.finalizing = queue.finalizing ∧ next.active = queue.active := by
  cases label with
  | pushLoadActive | pushLoadLength | pushLocked | wakeProducer =>
    obtain ⟨point, rfl⟩ := push_moves rfl taken
    exact ⟨rfl, rfl⟩
  | fill content =>
    obtain ⟨slot, _, rfl⟩ := fill_cases taken
    exact ⟨rfl, rfl⟩
  | pushCommit =>
    obtain ⟨slot, _, rfl⟩ := push_commit_cases taken
    exact ⟨rfl, rfl⟩
  | popLoadLength | popLocked | wakeConsumer | popRead =>
    obtain ⟨point, rfl⟩ := pop_moves rfl (by simp) taken
    exact ⟨rfl, rfl⟩
  | popCommit =>
    obtain ⟨slot, content, _, rfl⟩ := pop_commit_cases taken
    exact ⟨rfl, rfl⟩
  | finalizeLoad => exact absurd rfl noLoad
  | finalizeLocked => exact absurd rfl noLocked

/-- The reader returns only from `jp_queue_finalize`, and learns the answers of the
queue only from its call. -/
theorem reader_step_answers {chunkSize : Nat} {reader next : Reader} {event : ReaderEvent}
    (taken : reader.step chunkSize event = some next) :
    (next.point = .returned → event = .finalized) ∧
      (next.queueErr = reader.queueErr ∧ (reader.Over → next.Over) ∨
        ∃ answer, event = .pushed answer ∧ next = reader.afterPush answer) := by
  have top (other : Reader) : other.loopTop.point ≠ .returned := by
    rw [Reader.loopTop]
    split <;> simp
  cases step_reads taken with
  | pushed answer standing =>
    refine ⟨?_, Or.inr ⟨answer, rfl, rfl⟩⟩
    by_cases shutting : answer = .eshuttingDown <;> simp [Reader.afterPush, shutting]
  | finalized standing => exact ⟨fun _ => rfl, Or.inl ⟨rfl, fun _ => Or.inr rfl⟩⟩
  | waited answer standing =>
    rcases after_wait_cases reader answer with ⟨_, moved⟩ | ⟨_, moved⟩ | ⟨_, _, moved⟩
    · rw [moved]
      exact ⟨by simp, Or.inl ⟨rfl, fun past => by simp [Reader.Over, standing] at past⟩⟩
    · rw [moved]
      exact ⟨by simp, Or.inl ⟨rfl, fun past => by simp [Reader.Over, standing] at past⟩⟩
    · rw [moved]
      exact ⟨fun returned => absurd returned (top _),
        Or.inl ⟨rfl, fun past => by simp [Reader.Over, standing] at past⟩⟩
  | discarded | interrupted | committedFull =>
    refine ⟨fun returned => absurd returned (top _), Or.inl ⟨rfl, fun past => ?_⟩⟩
    simp_all [Reader.Over]
  | created answer standing | registered answer standing =>
    refine ⟨?_, Or.inl ⟨rfl, fun past => by simp [Reader.Over, standing] at past⟩⟩
    by_cases succeeded : answer = .ok <;> simp [succeeded]
  | ended standing | drained standing =>
    refine ⟨?_, Or.inl ⟨rfl, fun past => by simp [Reader.Over, standing] at past⟩⟩
    by_cases partly : reader.queueErr = .ok ∧ reader.held.length > 0 <;> simp [partly]
  | _ =>
    refine ⟨by simp, Or.inl ⟨rfl, fun past => ?_⟩⟩
    simp_all [Reader.Over]

/-- A step of the threads that finalizes nothing keeps them attended. -/
theorem kept_attended {state next : Pipeline} (attended : Attended state)
    (calls : next.finalizing = state.finalizing)
    (queue : next.queue.finalizing = state.queue.finalizing ∧
      next.queue.active = state.queue.active)
    (reader : next.reader.point = .returned → state.reader.point = .returned)
    (writer : next.writer = .returned → state.writer = .returned)
    (answers : next.reader.Over ∨ next.reader.queueErr = .ok ∨
      next.reader.queueErr = .emsgShouldDrop) : Attended next := by
  constructor
  · rw [queue.1, calls]
    exact attended.calls
  · rw [queue.2]
    exact fun returned => attended.reader (reader returned)
  · rw [queue.2]
    exact fun returned => attended.writer (writer returned)
  · exact answers

/-- What the queue answers is what the reader knows. -/
theorem known_answers {chunkSize : Nat} {state : Pipeline} {label : PipelineLabel}
    {event : ReaderEvent} {reader : Reader} (attended : Attended state)
    (gives : state.Gives label event)
    (taken : state.reader.step chunkSize event = some reader) :
    reader.Over ∨ reader.queueErr = .ok ∨ reader.queueErr = .emsgShouldDrop := by
  rcases (reader_step_answers taken).2 with ⟨same, past⟩ | ⟨answer, pushed, moved⟩
  · rw [same]
    exact attended.answers.imp_left past
  · subst pushed moved
    rcases gives with given | given | ⟨given, _⟩ <;> subst given
    · exact Or.inr (Or.inl rfl)
    · exact Or.inl (Or.inl rfl)
    · exact Or.inr (Or.inr rfl)

/-- Returning from `jp_queue_finalize` leaves a finalized queue behind. -/
theorem leaves_attended {chunkSize : Nat} {state next : Pipeline} {party : Party}
    (attended : Attended state) (inactive : state.queue.active = false)
    (leaves : Leaves chunkSize state party next) : Attended next := by
  cases leaves with
  | reader reader taken =>
    refine ⟨attended.calls, fun _ => inactive, attended.writer, Or.inl (Or.inr ?_)⟩
    exact (finalized_step taken).2.1
  | writer => exact ⟨attended.calls, attended.reader, fun _ => inactive, attended.answers⟩
  | watcher => exact attended

/-- Every step of any thread keeps them attended. -/
theorem step_attended {chunkSize : Nat} {state next : Pipeline} {label : PipelineLabel}
    (attended : Attended state) (taken : state.step chunkSize label = some next) :
    Attended next := by
  have known {event : ReaderEvent} {reader : Reader}
      (goes : state.reader.step chunkSize event = some reader) (gives : state.Gives label event) :=
    known_answers attended gives goes
  have unreturned {event : ReaderEvent} {reader : Reader} (other : event ≠ .finalized)
      (goes : state.reader.step chunkSize event = some reader)
      (returned : reader.point = .returned) : state.reader.point = .returned :=
    absurd ((reader_step_answers goes).1 returned) other
  have pushes {step : QueueLabel (List Byte)} (inside : step.inPush = true) :
      step ≠ .finalizeLoad ∧ step ≠ .finalizeLocked := by
    constructor <;> rintro rfl <;> simp [QueueLabel.inPush] at inside
  cases step_moves taken with
  | called event reader quiet _ goes =>
    have other : event ≠ .finalized := by
      rintro rfl
      simp [ReaderEvent.quiet] at quiet
    refine kept_attended attended rfl ⟨rfl, rfl⟩ (unreturned other goes) id (known goes ?_)
    cases event with
    | pushed | committed | finalized => simp [ReaderEvent.quiet] at quiet
    | _ => exact rfl
  | discarded bytes reader _ goes _ =>
    exact kept_attended attended rfl ⟨rfl, rfl⟩ (unreturned (by simp) goes) id (known goes rfl)
  | stored bytes content reader queue _ goes _ filled =>
    have kept := @finalizing_kept _ _ _ (.fill content) (by simp) (by simp) filled
    exact kept_attended attended rfl kept (unreturned (by simp) goes) id (known goes rfl)
  | pushing label queue _ inside stepped _ =>
    have kept := finalizing_kept (pushes inside).1 (pushes inside).2 stepped
    exact kept_attended attended rfl kept id id attended.answers
  | refused label queue answer reader _ inside stepped answered goes =>
    have kept := finalizing_kept (pushes inside).1 (pushes inside).2 stepped
    refine kept_attended attended rfl kept (unreturned (by simp) goes) id (known goes ?_)
    rcases push_refused inside stepped answered with ⟨finalized, _⟩ | full
    · exact Or.inr (Or.inl finalized)
    · exact Or.inr (Or.inr full)
  | reserved label queue cleared slot reader _ inside stepped _ clears goes =>
    have kept := finalizing_kept (pushes inside).1 (pushes inside).2 stepped
    obtain ⟨_, _, rfl⟩ := fill_cases clears
    exact kept_attended attended rfl kept (unreturned (by simp) goes) id (known goes (Or.inl rfl))
  | committed queue reader stepped goes =>
    have kept := @finalizing_kept _ _ _ .pushCommit (by simp) (by simp) stepped
    exact kept_attended attended rfl kept (unreturned (by simp) goes) id (known goes trivial)
  | popped label queue running inside stepped =>
    have pops : label ≠ .finalizeLoad ∧ label ≠ .finalizeLocked := by
      constructor <;> rintro rfl <;> simp [QueueLabel.inPop] at inside
    have kept := finalizing_kept pops.1 pops.2 stepped
    refine kept_attended attended rfl kept id ?_ attended.answers
    intro returned
    by_cases answered : queue.consumer = .outside .eshuttingDown <;> simp [answered] at returned
  | writeFailed _ => exact kept_attended attended rfl ⟨rfl, rfl⟩ id (by simp) attended.answers
  | entered party queue _ active stepped =>
    obtain ⟨_, rfl⟩ | ⟨inactive, _⟩ := finalize_load_cases stepped
    · refine ⟨?_, attended.reader, attended.writer, attended.answers⟩
      have calls := attended.calls
      cases party <;> simp [Function.update] <;> omega
    · simp [active] at inactive
  | found party queue _ _ inactive stepped leaves =>
    obtain ⟨active, _⟩ | ⟨_, rfl⟩ := finalize_load_cases stepped
    · simp [inactive] at active
    · exact leaves_attended attended inactive leaves
  | finalized party queue _ _ called stepped leaves =>
    obtain ⟨_, rfl⟩ := finalize_locked_cases stepped
    refine leaves_attended ?_ rfl leaves
    refine ⟨?_, fun _ => rfl, fun _ => rfl, attended.answers⟩
    have calls := attended.calls
    cases party <;> simp [Function.update] <;> omega

/-! ### Somebody can go on -/

/-- The steps by which the reader and the writer get to their end: no call fails, none
has to be made again, and nobody else takes part. -/
def PipelineLabel.willing : PipelineLabel → Bool
  | .call (.created answer) | .call (.registered answer) | .call (.waited answer) => answer = .ok
  | .call (.read (.data _)) | .call (.read .eof) => true
  | .call _ => false
  | .push label => label ≠ .wakeProducer
  | .pop label => label ≠ .wakeConsumer
  | .commit => true
  | .writeFailed => false
  | .finalizeLoad party | .finalizeLocked party => party ≠ .watcher

/-- Whose step it is. -/
def PipelineLabel.party : PipelineLabel → Party
  | .call _ | .push _ | .commit => .reader
  | .pop _ | .writeFailed => .writer
  | .finalizeLoad party | .finalizeLocked party => party

/-- A party at its call of `jp_queue_finalize` can take the next step of it. -/
theorem finalize_goes_on {chunkSize : Nat} {state : Pipeline} {party : Party}
    (attended : Attended state) (other : party ≠ .watcher)
    (stands : state.finalizes party = true) :
    (state.step chunkSize (.finalizeLoad party)).isSome = true ∨
      (state.step chunkSize (.finalizeLocked party)).isSome = true := by
  have leaves (queue : Queue (List Byte)) (calls : Party → Nat) : (Pipeline.leave chunkSize
      { state with queue := queue, finalizing := calls } party).isSome = true := by
    cases party with
    | reader =>
      have standing : state.reader.point = .cleanUp := by simpa [Pipeline.finalizes] using stands
      simp [Pipeline.leave, Reader.step, standing]
    | writer => simp [Pipeline.leave]
    | watcher => exact absurd rfl other
  by_cases called : state.finalizing party = 0
  · left
    cases active : state.queue.active with
    | true => simp [Pipeline.step, Pipeline.finalizeLoad, stands, called, JPipe.finalizeLoad, active]
    | false =>
      have left := leaves { state.queue with finalizing := state.queue.finalizing } state.finalizing
      simpa [Pipeline.step, Pipeline.finalizeLoad, stands, called, JPipe.finalizeLoad, active]
        using left
  · right
    have counted : 0 < state.queue.finalizing := by
      have calls := attended.calls
      cases party <;> omega
    have positive : 0 < state.finalizing party := Nat.pos_of_ne_zero called
    have left := leaves { state.queue with
      active := false
      producer := state.queue.producer.signal
      consumer := state.queue.consumer.signal
      finalizing := state.queue.finalizing - 1 }
      (Function.update state.finalizing party (state.finalizing party - 1))
    simpa [Pipeline.step, Pipeline.finalizeLocked, stands, positive, JPipe.finalizeLocked, counted]
      using left

/-- The producer holds a block where the reader has one. -/
theorem held_holding {chunkSize : Nat} {stdin content : List Byte} {state : Pipeline}
    (paired : Paired chunkSize stdin state) (block : state.reader.block = some content) :
    ∃ slot, state.queue.producer = .holding slot := by
  have held := paired.held.trans block
  cases point : state.queue.producer with
  | holding slot => exact ⟨slot, rfl⟩
  | _ => simp [Queue.held, point] at held

/-- A reader that reads can take the next byte of the input, or its end. -/
theorem reading_goes_on {chunkSize : Nat} (positive : 0 < chunkSize) {stdin : List Byte}
    {state : Pipeline} (paired : Paired chunkSize stdin state) (attended : Attended state)
    (standing : state.reader.point = .read) :
    ∃ result, (PipelineLabel.call (.read result)).willing = true ∧
      (state.step chunkSize (.call (.read result))).isSome = true := by
  have answered : state.reader.queueErr = .ok ∨ state.reader.queueErr = .emsgShouldDrop :=
    attended.answers.resolve_left (by simp [Reader.Over, standing])
  cases input : state.input with
  | nil =>
    refine ⟨.eof, rfl, ?_⟩
    rcases stands_at paired.accounted standing with ⟨reserved, content, block, _⟩ | ⟨refused, _⟩
    · simp [Pipeline.step, Pipeline.call, ReaderEvent.quiet, Reader.step, standing,
        Reader.afterRead, reserved, block, Reader.afterNoData, input]
    · have dropping := answered.resolve_left refused
      simp [Pipeline.step, Pipeline.call, ReaderEvent.quiet, Reader.step, standing,
        Reader.afterRead, dropping, Reader.afterNoData, input]
  | cons byte rest =>
    refine ⟨.data [byte], rfl, ?_⟩
    rcases stands_at paired.accounted standing with
      ⟨reserved, content, block, room⟩ | ⟨refused, unheld⟩
    · obtain ⟨slot, holds⟩ := held_holding paired block
      have fits : 1 ≤ chunkSize - content.length := by omega
      by_cases full : content.length + 1 = chunkSize <;>
        simp [Pipeline.step, Pipeline.call, Reader.step, standing, Reader.afterRead, reserved,
          block, fits, full, input, Reader.loopTop, fill, holds]
    · have dropping := answered.resolve_left refused
      have fits : 1 ≤ chunkSize := positive
      simp [Pipeline.step, Pipeline.call, Reader.step, standing, Reader.afterRead, dropping, fits,
        input, Reader.loopTop, unheld]

/-- A step the producer can take inside of the call is one the reader can take. -/
theorem push_goes_on {chunkSize : Nat} {state : Pipeline} {label : QueueLabel (List Byte)}
    (standing : state.reader.point = .reserve) (inside : label.inPush = true)
    (enabled : (state.queue.step label).isSome = true) :
    (state.step chunkSize (.push label)).isSome = true := by
  obtain ⟨queue, stepped⟩ := Option.isSome_iff_exists.mp enabled
  cases point : queue.producer <;>
    simp [Pipeline.step, Pipeline.push, standing, inside, stepped, point, Reader.step, fill]

/-- A reader that has not returned can go on, unless it sleeps in its call of the
queue. -/
theorem reader_goes_on {chunkSize : Nat} (positive : 0 < chunkSize) {stdin : List Byte}
    {state : Pipeline} (paired : Paired chunkSize stdin state) (attended : Attended state)
    (unreturned : state.reader.point ≠ .returned)
    (awake : state.reader.point = .reserve → state.queue.producer ≠ .asleep false) :
    ∃ label, label.willing = true ∧ label.party = .reader ∧
      (state.step chunkSize label).isSome = true := by
  have commits (filled : 0 < state.reader.held.length)
      (standing : (state.reader.step chunkSize .committed).isSome = true) :
      (state.step chunkSize .commit).isSome = true := by
    obtain ⟨content, block⟩ := Option.ne_none_iff_exists'.mp (unblocked_held filled)
    obtain ⟨slot, holds⟩ := held_holding paired block
    simpa [Pipeline.step, Pipeline.commit, jpQueuePushCommit, holds] using standing
  cases standing : state.reader.point with
  | create =>
    refine ⟨.call (.created .ok), rfl, rfl, ?_⟩
    simp [Pipeline.step, Pipeline.call, ReaderEvent.quiet, Reader.step, standing]
  | register =>
    refine ⟨.call (.registered .ok), rfl, rfl, ?_⟩
    simp [Pipeline.step, Pipeline.call, ReaderEvent.quiet, Reader.step, standing]
  | wait =>
    refine ⟨.call (.waited .ok), rfl, rfl, ?_⟩
    simp [Pipeline.step, Pipeline.call, ReaderEvent.quiet, Reader.step, standing]
  | reserve =>
    have unheld : state.queue.held = none := paired.held.trans (stands_at paired.accounted standing)
    cases point : state.queue.producer with
    | outside answer =>
      refine ⟨.push .pushLoadActive, rfl, rfl, push_goes_on standing rfl ?_⟩
      simp [Queue.step, pushLoadActive, point]
    | loadLength =>
      refine ⟨.push .pushLoadLength, rfl, rfl, push_goes_on standing rfl ?_⟩
      simp [Queue.step, pushLoadLength, point]
    | lock =>
      refine ⟨.push .pushLocked, rfl, rfl, push_goes_on standing rfl ?_⟩
      simp [Queue.step, pushLocked, point, ProducerPoint.entering]
    | asleep woken =>
      cases woken with
      | false => exact absurd point (awake standing)
      | true =>
        refine ⟨.push .pushLocked, rfl, rfl, push_goes_on standing rfl ?_⟩
        simp [Queue.step, pushLocked, point, ProducerPoint.entering]
    | holding slot => simp [Queue.held, point] at unheld
  | read =>
    obtain ⟨result, willing, goes⟩ := reading_goes_on positive paired attended standing
    exact ⟨_, willing, rfl, goes⟩
  | commitFull =>
    have full : state.reader.queueErr = .ok ∧ state.reader.held.length = chunkSize :=
      stands_at paired.accounted standing
    exact ⟨.commit, rfl, rfl, commits (full.2 ▸ positive) (by simp [Reader.step, standing])⟩
  | commitEnd | commitAgain =>
    have filled : state.reader.queueErr = .ok ∧ 0 < state.reader.held.length :=
      stands_at paired.accounted standing
    exact ⟨.commit, rfl, rfl, commits filled.2 (by simp [Reader.step, standing])⟩
  | cleanUp =>
    have stands : state.finalizes .reader = true := by simp [Pipeline.finalizes, standing]
    rcases finalize_goes_on attended (by simp) stands with goes | goes
    · exact ⟨_, rfl, rfl, goes⟩
    · exact ⟨_, rfl, rfl, goes⟩
  | returned => exact absurd standing unreturned

section Runs

variable {σ : Type} {ctx : WriterCtx} {emit : σ → List Byte → Option (σ × Errno)}

/-- A step of the engine that the threads wait for. -/
def EngineLabel.idle : EngineLabel → Bool
  | .thread label => label.idle
  | .turn => false

/-- A step of the engine towards its end. -/
def EngineLabel.willing : EngineLabel → Bool
  | .thread label => label.willing
  | .turn => true

/-- Whose step it is; the turns are the writer's. -/
def EngineLabel.party : EngineLabel → Party
  | .thread label => label.party
  | .turn => .writer

/-- The writer is in a call of the descriptor that does not return. -/
structure Engine.Blocked (ctx : WriterCtx) (emit : σ → List Byte → Option (σ × Errno))
    (engine : Engine σ) : Prop where
  running : engine.threads.writer = .running
  calls : ∃ payload,
    (innerTurn ctx.chunkSize engine.writer.overflow engine.unread).payload = some payload ∧
      emit engine.writer.sink (recordOf ctx payload).encoded = none

/-- Every call of the descriptor returns. -/
def Answers (emit : σ → List Byte → Option (σ × Errno)) : Prop :=
  ∀ sink encoded, (emit sink encoded).isSome = true

/-- A descriptor whose calls all return blocks nobody. -/
theorem answers_unblocked (answers : Answers emit) (engine : Engine σ) :
    ¬ engine.Blocked ctx emit := by
  rintro ⟨_, payload, _, unanswered⟩
  have answered := answers engine.writer.sink (recordOf ctx payload).encoded
  rw [unanswered] at answered
  simp at answered

/-- A step of the threads outside of the inner loop is a step of the engine. -/
theorem thread_goes_on {engine : Engine σ} {label : PipelineLabel}
    (willing : label.willing = true) (used : label = .pop .popCommit → engine.unread = [])
    (enabled : (engine.threads.step ctx.chunkSize label).isSome = true) :
    (engine.step ctx emit (.thread label)).isSome = true := by
  have unfailed : label ≠ .writeFailed := by
    rintro rfl
    simp [PipelineLabel.willing] at willing
  rw [Engine.step, Engine.thread, if_pos ⟨unfailed, used⟩, Option.isSome_map]
  exact enabled

/-- A step of the reader is none of the writer's commits. -/
theorem reader_step_goes_on {engine : Engine σ} {label : PipelineLabel}
    (willing : label.willing = true) (readers : label.party = .reader)
    (enabled : (engine.threads.step ctx.chunkSize label).isSome = true) :
    (engine.step ctx emit (.thread label)).isSome = true := by
  refine thread_goes_on willing ?_ enabled
  rintro rfl
  simp [PipelineLabel.party] at readers

/-- A writer with bytes left in its block can take a turn, unless the descriptor does
not answer it. -/
theorem turn_goes_on {engine : Engine σ} (unblocked : ¬ engine.Blocked ctx emit)
    (running : engine.threads.writer = .running) (unread : engine.unread ≠ []) :
    (engine.step ctx emit .turn).isSome = true := by
  obtain ⟨slot, content, point⟩ := unread_reading unread
  rw [Engine.step, Engine.turn, if_pos ⟨running, unread⟩]
  cases cut : (innerTurn ctx.chunkSize engine.writer.overflow engine.unread).payload with
  | none => simp [cut]
  | some payload =>
    obtain ⟨⟨sink, err⟩, emitted⟩ := Option.ne_none_iff_exists'.mp fun unanswered =>
      unblocked ⟨running, payload, cut, unanswered⟩
    by_cases succeeded : err = .ok <;>
      simp [cut, writeRecord, emitted, succeeded, Pipeline.writeFailed, running, point]

/-- A writer that has not returned can go on, unless it sleeps in its call of the
queue or the descriptor does not answer it. -/
theorem writer_goes_on {engine : Engine σ} (unblocked : ¬ engine.Blocked ctx emit)
    (attended : Attended engine.threads) (unreturned : engine.threads.writer ≠ .returned)
    (awake : engine.threads.queue.consumer ≠ .asleep false) :
    ∃ label, label.willing = true ∧ label.party = .writer ∧
      (engine.step ctx emit label).isSome = true := by
  have pops {label : QueueLabel (List Byte)} (running : engine.threads.writer = .running)
      (inside : label.inPop = true) (signalled : label ≠ .wakeConsumer)
      (used : label = .popCommit → engine.unread = [])
      (enabled : (engine.threads.queue.step label).isSome = true) :
      ∃ label, label.willing = true ∧ label.party = .writer ∧
        (engine.step ctx emit label).isSome = true := by
    have willing : (PipelineLabel.pop label).willing = true := by
      simpa [PipelineLabel.willing] using signalled
    refine ⟨.thread (.pop label), willing, rfl, thread_goes_on willing (by simpa using used) ?_⟩
    simpa [Pipeline.step, Pipeline.pop, running, inside] using enabled
  cases standing : engine.threads.writer with
  | running =>
    cases point : engine.threads.queue.consumer with
    | outside answer =>
      exact @pops .popLoadLength standing rfl (by simp) (by simp)
        (by simp [Queue.step, popLoadLength, point])
    | lock =>
      exact @pops .popLocked standing rfl (by simp) (by simp)
        (by simp [Queue.step, popLocked, point, ConsumerPoint.entering])
    | asleep woken =>
      cases woken with
      | false => exact absurd point awake
      | true =>
        exact @pops .popLocked standing rfl (by simp) (by simp)
          (by simp [Queue.step, popLocked, point, ConsumerPoint.entering])
    | holding slot =>
      exact @pops .popRead standing rfl (by simp) (by simp)
        (by simp [Queue.step, popRead, point])
    | reading slot content =>
      by_cases unread : engine.unread = []
      · exact @pops .popCommit standing rfl (by simp) (fun _ => unread)
          (by simp [Queue.step, jpQueuePopCommit, point])
      · exact ⟨.turn, rfl, rfl, turn_goes_on unblocked standing unread⟩
  | cleanUp =>
    have stands : engine.threads.finalizes .writer = true := by
      simp [Pipeline.finalizes, standing]
    rcases finalize_goes_on attended (by simp) stands with goes | goes
    · exact ⟨.thread (.finalizeLoad .writer), rfl, rfl, thread_goes_on rfl (by simp) goes⟩
    · exact ⟨.thread (.finalizeLocked .writer), rfl, rfl, thread_goes_on rfl (by simp) goes⟩
  | returned => exact absurd standing unreturned

/-- The reader and the writer have returned. -/
def Engine.Finished (engine : Engine σ) : Prop :=
  engine.threads.reader.point = .returned ∧ engine.threads.writer = .returned

/-- What holds of the engine at every moment. -/
structure Running (ctx : WriterCtx) (emit : σ → List Byte → Option (σ × Errno))
    (stdin : List Byte) (sink : σ) (engine : Engine σ) : Prop where
  paired : Paired ctx.chunkSize stdin engine.threads
  feeding : Feeding ctx emit sink engine
  rested : Rested engine.threads.queue
  attended : Attended engine.threads

/-- The engine before its first step. -/
theorem start_running {capacity : Nat} (positive : 0 < capacity) (policy : Policy)
    (blocks : Nat → List Byte) (stdin : List Byte) (sink : σ) :
    Running ctx emit stdin sink (Engine.start capacity policy blocks stdin sink) where
  paired := start_paired positive policy ctx.chunkSize blocks stdin
  feeding := start_feeding capacity policy blocks stdin sink
  rested := by
    constructor <;> simp [Engine.start, Pipeline.start, jpQueueCreate]
  attended := start_attended capacity policy blocks stdin

/-- Every step keeps it. -/
theorem step_running (positive : 0 < ctx.chunkSize) {stdin : List Byte} {sink : σ}
    {engine next : Engine σ} {label : EngineLabel} (running : Running ctx emit stdin sink engine)
    (taken : engine.step ctx emit label = some next) : Running ctx emit stdin sink next := by
  have rests (state : Pipeline) (label : PipelineLabel) (after : Pipeline)
      (both : Consistent state.queue ∧ Rested state.queue)
      (stepped : state.step ctx.chunkSize label = some after) :
      Consistent after.queue ∧ Rested after.queue :=
    step_keeps (fun _ _ _ => step_consistent_rested) both stepped
  obtain ⟨paired, feeding⟩ := engine_step_feeding positive ⟨running.paired, running.feeding⟩ taken
  have rested := engine_keeps rests ⟨running.paired.consistent, running.rested⟩ taken
  exact ⟨paired, feeding, rested.2, engine_keeps (fun _ _ _ => step_attended) running.attended taken⟩

/-- Short of the return of both, the reader or the writer can take a step, unless the
writer is in a call of the descriptor that does not return. -/
theorem engine_goes_on (positive : 0 < ctx.chunkSize) {stdin : List Byte} {sink : σ}
    {engine : Engine σ} (running : Running ctx emit stdin sink engine)
    (unfinished : ¬ engine.Finished) (unblocked : ¬ engine.Blocked ctx emit) :
    ∃ label, label.willing = true ∧ (engine.step ctx emit label).isSome = true := by
  have consistent := running.paired.consistent
  by_cases sleeping : engine.threads.reader.point = .reserve ∧
      engine.threads.queue.producer = .asleep false
  · -- A producer that sleeps on a full queue leaves the step to the writer.
    obtain ⟨active, full⟩ := running.rested.producer sleeping.2
    obtain ⟨label, willing, _, enabled⟩ := writer_goes_on unblocked running.attended
      (fun returned => by simp [running.attended.writer returned] at active)
      (fun asleep => by
        have empty := (running.rested.consumer asleep).2
        have capacity := consistent.positive
        omega)
    exact ⟨label, willing, enabled⟩
  · by_cases returned : engine.threads.reader.point = .returned
    · have inactive := running.attended.reader returned
      obtain ⟨label, willing, _, enabled⟩ := writer_goes_on unblocked running.attended
        (fun left => unfinished ⟨returned, left⟩)
        (fun asleep => by simp [(running.rested.consumer asleep).1] at inactive)
      exact ⟨label, willing, enabled⟩
    · obtain ⟨label, willing, readers, enabled⟩ := reader_goes_on positive running.paired
        running.attended returned fun standing asleep => sleeping ⟨standing, asleep⟩
      exact ⟨.thread label, willing, reader_step_goes_on willing readers enabled⟩

end Runs

end JPipe
