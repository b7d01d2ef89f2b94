import JPipe.Pairing
import JPipe.Pipeline
import JPipe.Potential
import JPipe.Wakeups
import Mathlib.Data.List.Basic

/-!
# How much there is to do

A potential of the three threads. It counts the input left, the blocks between
head and tail and how far each party is from having to wait; every step of a
thread lowers it, but for those the threads do not take by themselves: an answer
of the poller, an interrupted `read`, a wake-up without a signal, and the calls
of the watcher. Each of these raises it by a bounded amount.
-/

namespace JPipe

/-! ### The queue -/

/-- How far the producer is from holding a block. A signal brings a sleeper back by
one. -/
def ProducerPoint.rank : ProducerPoint → Nat
  | .outside _ => 4
  | .loadLength => 3
  | .lock => 2
  | .asleep woken => if woken then 2 else 1
  | .holding _ => 0

/-- How far the consumer is from having read a block. -/
def ConsumerPoint.rank {β : Type} : ConsumerPoint β → Nat
  | .outside _ => 3
  | .lock => 2
  | .asleep woken => if woken then 2 else 1
  | .holding _ => 1
  | .reading _ _ => 0

/-- The blocks to pop, and where the two parties stand. -/
def Queue.rank {β : Type} (queue : Queue β) : Nat :=
  5 * queue.length + queue.producer.rank + queue.consumer.rank

/-- A signal costs at most one. -/
theorem producer_signal_rank (point : ProducerPoint) : point.signal.rank ≤ point.rank + 1 := by
  cases point with
  | asleep woken => cases woken <;> simp [ProducerPoint.signal, ProducerPoint.rank]
  | _ => exact Nat.le_succ _

theorem consumer_signal_rank {β : Type} (point : ConsumerPoint β) :
    point.signal.rank ≤ point.rank + 1 := by
  cases point with
  | asleep woken => cases woken <;> simp [ConsumerPoint.signal, ConsumerPoint.rank]
  | _ => exact Nat.le_succ _

section Ranks

variable {β : Type} {queue next : Queue β}

/-- Whoever is about to run its section under the lock stands at the same rank. -/
theorem producer_entering_rank {point : ProducerPoint} (entering : point.entering = true) :
    point.rank = 2 := by
  cases point <;> simp_all [ProducerPoint.entering, ProducerPoint.rank]

theorem consumer_entering_rank {point : ConsumerPoint β} (entering : point.entering = true) :
    point.rank = 2 := by
  cases point <;> simp_all [ConsumerPoint.entering, ConsumerPoint.rank]

/-- A step inside of `jp_queue_push_uncommitted` brings the producer nearer to a block,
or answers it. -/
theorem push_rank {label : QueueLabel β} (inside : label.inPush = true)
    (signalled : label ≠ .wakeProducer) (taken : queue.step label = some next) :
    2 ≤ queue.producer.rank ∧
      (next.producer.rank < queue.producer.rank ∨ ∃ answer, next.producer = .outside answer) := by
  cases label with
  | pushLoadActive =>
    obtain ⟨⟨answer, point⟩, ⟨_, rfl⟩ | ⟨_, rfl⟩⟩ := push_load_active_cases taken
    · simp [point, ProducerPoint.rank]
    · simp [point, ProducerPoint.rank]
  | pushLoadLength =>
    obtain ⟨point, ⟨_, rfl⟩ | ⟨_, rfl⟩⟩ := push_load_length_cases taken
    · simp [point, ProducerPoint.rank]
    · simp [point, ProducerPoint.rank]
  | pushLocked =>
    obtain ⟨entering, moved⟩ := push_locked_cases taken
    rw [producer_entering_rank entering]
    obtain ⟨_, _, _, rfl⟩ | ⟨_, rfl⟩ | ⟨_, _, _, rfl⟩ | ⟨_, _, rfl⟩ := moved <;>
      simp [ProducerPoint.rank]
  | wakeProducer => exact absurd rfl signalled
  | _ => simp [QueueLabel.inPush] at inside

/-- A step of the consumer brings it nearer to having read a block, or answers it that
the queue is used up, or gives a block back. -/
theorem pop_rank {label : QueueLabel β} (consistent : Consistent queue)
    (inside : label.inPop = true) (signalled : label ≠ .wakeConsumer)
    (taken : queue.step label = some next) :
    next.rank < queue.rank ∨
      next.consumer = .outside .eshuttingDown ∧ next.rank ≤ queue.rank + 1 := by
  cases label with
  | popLoadLength =>
    obtain ⟨⟨answer, point⟩, ⟨_, rfl⟩ | ⟨_, rfl⟩⟩ := pop_load_length_cases taken
    · simp [Queue.rank, point, ConsumerPoint.rank]
    · simp [Queue.rank, point, ConsumerPoint.rank]
  | popLocked =>
    obtain ⟨entering, moved⟩ := pop_locked_cases taken
    rw [Queue.rank, Queue.rank, consumer_entering_rank entering]
    obtain ⟨_, _, rfl⟩ | ⟨_, _, rfl⟩ | ⟨_, rfl⟩ := moved <;> simp [ConsumerPoint.rank]
  | wakeConsumer => exact absurd rfl signalled
  | popRead =>
    obtain ⟨slot, point, rfl⟩ := pop_read_cases taken
    simp [Queue.rank, point, ConsumerPoint.rank]
  | popCommit =>
    obtain ⟨slot, content, point, rfl⟩ := pop_commit_cases taken
    have filled := (consistent.reading slot content point).2.1
    have signal := producer_signal_rank queue.producer
    left
    simp only [Queue.rank, point, ConsumerPoint.rank]
    omega
  | _ => simp [QueueLabel.inPop] at inside

/-- A commit of the producer makes one more block to pop. -/
theorem push_commit_rank (taken : jpQueuePushCommit queue = some next) :
    next.rank ≤ queue.rank + 10 := by
  obtain ⟨slot, point, rfl⟩ := push_commit_cases taken
  have signal := consumer_signal_rank queue.consumer
  simp only [Queue.rank, point, ProducerPoint.rank]
  omega

/-- The finalization wakes up both. -/
theorem finalize_load_rank (taken : finalizeLoad queue = some next) : next.rank = queue.rank := by
  obtain ⟨_, rfl⟩ | ⟨_, rfl⟩ := finalize_load_cases taken <;> rfl

theorem finalize_locked_rank (taken : finalizeLocked queue = some next) :
    next.rank ≤ queue.rank + 2 := by
  obtain ⟨_, rfl⟩ := finalize_locked_cases taken
  have producing := producer_signal_rank queue.producer
  have consuming := consumer_signal_rank queue.consumer
  simp only [Queue.rank]
  omega

/-- A wake-up without a signal costs what a signal costs. -/
theorem wake_rank {label : QueueLabel β} (wakes : label = .wakeProducer ∨ label = .wakeConsumer)
    (taken : queue.step label = some next) : next.rank = queue.rank + 1 := by
  rcases wakes with same | same
  · subst same
    obtain ⟨point, rfl⟩ := wake_producer_cases taken
    simp [Queue.rank, point, ProducerPoint.rank]
    omega
  · subst same
    obtain ⟨point, rfl⟩ := wake_consumer_cases taken
    simp [Queue.rank, point, ConsumerPoint.rank]

/-- Storing bytes moves nobody. -/
theorem fill_rank {content : β} (taken : fill queue content = some next) :
    next.rank = queue.rank := by
  obtain ⟨slot, _, rfl⟩ := fill_cases taken
  rfl

end Ranks

/-! ### The reader -/

/-- How far the reader is from its end, input left aside. -/
def ReaderPoint.rank : ReaderPoint → Nat
  | .create => 6
  | .register => 5
  | .wait => 4
  | .reserve => 19
  | .read => 16
  | .commitFull => 30
  | .commitEnd | .commitAgain => 15
  | .cleanUp => 4
  | .returned => 0

/-- The calls whose answers the reader waits for: of the poller, and a `read` that was
interrupted. -/
def ReaderEvent.idle : ReaderEvent → Bool
  | .waited _ | .read .eintr => true
  | _ => false

/-- At the top of the inner loop the reader reserves a block or reads. -/
theorem loop_top_rank (reader : Reader) : reader.loopTop.point.rank ≤ 19 := by
  rw [Reader.loopTop]
  split <;> simp [ReaderPoint.rank]

/-- A quiet call brings the reader nearer to its end, but for an answer it waited
for. -/
theorem quiet_rank {chunkSize : Nat} {reader next : Reader} {event : ReaderEvent}
    (quiet : event.quiet = true) (taken : reader.step chunkSize event = some next) :
    (event.idle = false → next.point.rank < reader.point.rank) ∧
      next.point.rank ≤ reader.point.rank + 15 := by
  cases step_reads taken with
  | created answer standing | registered answer standing =>
    by_cases succeeded : answer = .ok <;> simp [standing, succeeded, ReaderPoint.rank]
  | waited answer standing =>
    refine ⟨by simp [ReaderEvent.idle], ?_⟩
    rw [standing]
    rcases after_wait_cases reader answer with ⟨_, moved⟩ | ⟨_, moved⟩ | ⟨_, _, moved⟩
    · simp [moved, ReaderPoint.rank]
    · simp [moved, ReaderPoint.rank]
    · rw [moved]
      exact loop_top_rank _
  | ended standing | drained standing =>
    by_cases partly : reader.queueErr = .ok ∧ reader.held.length > 0 <;>
      simp [standing, partly, ReaderPoint.rank]
  | interrupted standing =>
    have top := loop_top_rank reader
    have here : reader.point.rank = 16 := by simp [standing, ReaderPoint.rank]
    refine ⟨by simp [ReaderEvent.idle], ?_⟩
    omega
  | failed standing => simp [standing, ReaderPoint.rank]
  | _ => simp [ReaderEvent.quiet] at quiet

/-- Bytes read pay for the block they complete. -/
theorem data_rank {chunkSize : Nat} {reader next : Reader} {bytes : List Byte}
    (taken : reader.step chunkSize (.read (.data bytes)) = some next) :
    0 < bytes.length ∧ next.point.rank < reader.point.rank + 15 := by
  cases step_reads taken with
  | discarded _ standing _ positive _ =>
    have top := loop_top_rank { reader with
      bytesRead := reader.bytesRead ++ bytes, log := reader.log ++ [.discarded bytes] }
    have here : reader.point.rank = 16 := by simp [standing, ReaderPoint.rank]
    refine ⟨positive, ?_⟩
    omega
  | filled _ content standing _ _ positive _ => simp [standing, ReaderPoint.rank, positive]
  | stored _ content standing _ _ positive _ => simp [standing, ReaderPoint.rank, positive]

/-- After a commit the reader is that much nearer to its end as the block costs. -/
theorem commit_rank {chunkSize : Nat} {reader next : Reader}
    (taken : reader.step chunkSize .committed = some next) :
    next.point.rank + 11 ≤ reader.point.rank := by
  cases step_reads taken with
  | committedFull standing =>
    have top := loop_top_rank reader.commit
    have here : reader.point.rank = 30 := by simp [standing, ReaderPoint.rank]
    omega
  | committedEnd standing | committedAgain standing => simp [standing, ReaderPoint.rank]

/-! ### The threads -/

/-- The writer with its call of `jp_queue_finalize` to come. -/
def WriterPoint.rank : WriterPoint → Nat
  | .running => 6
  | .cleanUp => 4
  | .returned => 0

/-- What is left to do. The last two summands are for the load of `active` in the calls
of `jp_queue_finalize` that the reader and the writer make. -/
def Pipeline.potential (state : Pipeline) : Nat :=
  15 * state.input.length + state.reader.point.rank + state.writer.rank + state.queue.rank +
    (1 - state.finalizing .reader) + (1 - state.finalizing .writer)

/-- The steps the reader and the writer do not take by themselves. -/
def PipelineLabel.idle : PipelineLabel → Bool
  | .call event => event.idle
  | .push label => label = .wakeProducer
  | .pop label => label = .wakeConsumer
  | .finalizeLoad party | .finalizeLocked party => party = .watcher
  | .commit | .writeFailed => false

/-- Leaving `jp_queue_finalize` takes the reader and the writer to their end. -/
theorem leaves_potential {chunkSize : Nat} {state next : Pipeline} {party : Party}
    (leaves : Leaves chunkSize state party next) (stands : state.finalizes party = true) :
    next.potential + (if party = .watcher then 0 else 4) ≤ state.potential := by
  cases leaves with
  | reader reader taken =>
    obtain ⟨standing, returned, _⟩ := finalized_step taken
    simp only [Pipeline.potential, standing, returned, ReaderPoint.rank, reduceCtorEq, ↓reduceIte]
    omega
  | writer =>
    have standing : state.writer = .cleanUp := by simpa [Pipeline.finalizes] using stands
    simp only [Pipeline.potential, standing, WriterPoint.rank, reduceCtorEq, ↓reduceIte]
    omega
  | watcher => simp

/-- A call of `jp_queue_finalize` begins where none is under way. -/
theorem finalize_load_calls {chunkSize : Nat} {state next : Pipeline} {party : Party}
    (other : party ≠ .watcher) (taken : state.step chunkSize (.finalizeLoad party) = some next) :
    state.finalizing party = 0 := by
  rw [Pipeline.step, Pipeline.finalizeLoad] at taken
  split at taken
  · rename_i calls
    exact calls.2 other
  · simp at taken

/-- A step inside of `jp_queue_push_uncommitted`: answered without a block, answered
with one, or still inside. -/
theorem push_answers {chunkSize : Nat} {state next : Pipeline} {label : QueueLabel (List Byte)}
    (taken : state.step chunkSize (.push label) = some next) :
    state.reader.point = .reserve ∧ label.inPush = true ∧
      ∃ queue, state.queue.step label = some queue ∧
        ((∃ answer, queue.producer = .outside answer ∧
            next = { state with queue := queue, reader := state.reader.afterPush answer }) ∨
          (∃ slot cleared, queue.producer = .holding slot ∧ fill queue [] = some cleared ∧
            next = { state with queue := cleared, reader := state.reader.afterPush .ok }) ∨
          ((∀ answer, queue.producer ≠ .outside answer) ∧
            next = { state with queue := queue })) := by
  rw [Pipeline.step, Pipeline.push] at taken
  split at taken
  · rename_i calls
    obtain ⟨queue, stepped, following⟩ := Option.bind_eq_some_iff.mp taken
    refine ⟨calls.1, calls.2, queue, stepped, ?_⟩
    cases point : queue.producer with
    | outside answer =>
      simp only [point] at following
      obtain ⟨reader, goes, same⟩ := Option.map_eq_some_iff.mp following
      left
      exact ⟨answer, rfl, (pushed_step goes).2 ▸ same.symm⟩
    | holding slot =>
      simp only [point] at following
      obtain ⟨cleared, clears, rest⟩ := Option.bind_eq_some_iff.mp following
      obtain ⟨reader, goes, same⟩ := Option.map_eq_some_iff.mp rest
      right
      left
      exact ⟨slot, cleared, rfl, clears, (pushed_step goes).2 ▸ same.symm⟩
    | _ =>
      simp only [point] at following
      right
      right
      exact ⟨by simp, (Option.some.inj following).symm⟩
  · simp at taken

/-- After the call of the queue the reader reads or cleans up. -/
theorem after_push_rank (reader : Reader) (answer : Errno) :
    (reader.afterPush answer).point.rank ≤ 16 := by
  by_cases shutting : answer = .eshuttingDown <;>
    simp [Reader.afterPush, shutting, ReaderPoint.rank]

/-- A step inside of the call lowers the potential, but for a wake-up without a
signal. -/
theorem push_potential {chunkSize : Nat} {state next : Pipeline} {label : QueueLabel (List Byte)}
    (signalled : label ≠ .wakeProducer)
    (taken : state.step chunkSize (.push label) = some next) :
    next.potential < state.potential := by
  obtain ⟨standing, inside, queue, stepped, moved⟩ := push_answers taken
  obtain ⟨far, nearer⟩ := push_rank inside signalled stepped
  have here : state.reader.point.rank = 19 := by simp [standing, ReaderPoint.rank]
  obtain ⟨point, rfl⟩ := push_moves inside stepped
  simp only at moved nearer
  rcases moved with ⟨answer, rfl, rfl⟩ | ⟨slot, cleared, rfl, clears, rfl⟩ | ⟨within, rfl⟩
  · have after := after_push_rank state.reader answer
    have there : (ProducerPoint.outside answer).rank = 4 := by simp [ProducerPoint.rank]
    simp only [Pipeline.potential, Queue.rank]
    omega
  · have after := after_push_rank state.reader .ok
    have there : (ProducerPoint.holding slot).rank = 0 := by simp [ProducerPoint.rank]
    have stored := fill_rank clears
    simp only [Pipeline.potential, stored]
    simp only [Queue.rank]
    omega
  · rcases nearer with lower | ⟨answer, outside⟩
    · simp only [Pipeline.potential, Queue.rank]
      omega
    · exact absurd outside (within answer)

/-- Every step of a thread that it takes by itself lowers the potential. -/
theorem step_lowers {chunkSize : Nat} {state next : Pipeline} {label : PipelineLabel}
    (consistent : Consistent state.queue) (working : label.idle = false)
    (taken : state.step chunkSize label = some next) : next.potential < state.potential := by
  cases step_moves taken with
  | called event reader quiet _ goes =>
    have nearer := (quiet_rank quiet goes).1 working
    simp only [Pipeline.potential]
    omega
  | discarded bytes reader arrived goes _ =>
    obtain ⟨positive, paid⟩ := data_rank goes
    have inside := arrived.length_le
    simp only [Pipeline.potential, List.length_drop]
    omega
  | stored bytes content reader queue arrived goes _ filled =>
    obtain ⟨positive, paid⟩ := data_rank goes
    have inside := arrived.length_le
    have same := fill_rank filled
    simp only [Pipeline.potential, List.length_drop]
    omega
  | pushing label queue _ _ _ _ =>
    exact push_potential (by simpa [PipelineLabel.idle] using working) taken
  | refused label queue answer reader _ _ _ _ _ =>
    exact push_potential (by simpa [PipelineLabel.idle] using working) taken
  | reserved label queue cleared slot reader _ _ _ _ _ _ =>
    exact push_potential (by simpa [PipelineLabel.idle] using working) taken
  | committed queue reader stepped goes =>
    have block := push_commit_rank stepped
    have nearer := commit_rank goes
    simp only [Pipeline.potential]
    omega
  | popped label queue running inside stepped =>
    have signalled : label ≠ .wakeConsumer := by simpa [PipelineLabel.idle] using working
    simp only [Pipeline.potential, running, WriterPoint.rank]
    rcases pop_rank consistent inside signalled stepped with lower | ⟨answered, bounded⟩
    · by_cases answered : queue.consumer = .outside .eshuttingDown <;> simp [answered] <;> omega
    · simp only [answered, ↓reduceIte]
      omega
  | writeFailed running =>
    simp only [Pipeline.potential, running, WriterPoint.rank]
    omega
  | entered party queue _ _ stepped =>
    have same := finalize_load_rank stepped
    have other : party ≠ .watcher := by simpa [PipelineLabel.idle] using working
    have none := finalize_load_calls other taken
    cases party with
    | watcher => exact absurd rfl other
    | reader => simp [Pipeline.potential, same, none]
    | writer => simp [Pipeline.potential, same, none]
  | found party queue _ stands _ stepped leaves =>
    have other : party ≠ .watcher := by simpa [PipelineLabel.idle] using working
    have same := finalize_load_rank stepped
    have left := leaves_potential leaves stands
    simp only [other, ↓reduceIte] at left
    simp only [Pipeline.potential] at left ⊢
    omega
  | finalized party queue _ stands _ stepped leaves =>
    have other : party ≠ .watcher := by simpa [PipelineLabel.idle] using working
    have bounded := finalize_locked_rank stepped
    have left := leaves_potential leaves stands
    simp only [other, ↓reduceIte] at left
    cases party with
    | watcher => exact absurd rfl other
    | reader =>
      simp only [Pipeline.potential, Function.update_self, Function.update_of_ne, ne_eq,
        reduceCtorEq, not_false_eq_true] at left ⊢
      omega
    | writer =>
      simp only [Pipeline.potential, Function.update_self, Function.update_of_ne, ne_eq,
        reduceCtorEq, not_false_eq_true] at left ⊢
      omega

/-- A step that is waited for raises the potential of the threads by 15 at most: the work
that one answer of the poller or one wake-up can cause. -/
theorem step_raises {chunkSize : Nat} {state next : Pipeline} {label : PipelineLabel}
    (idle : label.idle = true) (taken : state.step chunkSize label = some next) :
    next.potential ≤ state.potential + 15 := by
  cases step_moves taken with
  | called event reader quiet _ goes =>
    have farther := (quiet_rank quiet goes).2
    simp only [Pipeline.potential]
    omega
  | discarded | stored => simp [PipelineLabel.idle, ReaderEvent.idle] at idle
  | pushing label queue standing inside stepped _ =>
    have same : label = .wakeProducer := by simpa [PipelineLabel.idle] using idle
    have farther := wake_rank (Or.inl same) stepped
    simp only [Pipeline.potential]
    omega
  | refused label queue answer reader _ _ stepped answered _ =>
    have same : label = .wakeProducer := by simpa [PipelineLabel.idle] using idle
    subst same
    obtain ⟨_, rfl⟩ := wake_producer_cases stepped
    simp at answered
  | reserved label queue cleared slot reader _ _ stepped holds _ _ =>
    have same : label = .wakeProducer := by simpa [PipelineLabel.idle] using idle
    subst same
    obtain ⟨_, rfl⟩ := wake_producer_cases stepped
    simp at holds
  | committed | writeFailed => simp [PipelineLabel.idle] at idle
  | popped label queue running _ stepped =>
    have same : label = .wakeConsumer := by simpa [PipelineLabel.idle] using idle
    have farther := wake_rank (Or.inr same) stepped
    by_cases answered : queue.consumer = .outside .eshuttingDown <;>
      simp [Pipeline.potential, running, WriterPoint.rank, answered] <;> omega
  | entered party queue _ _ stepped =>
    have same : party = .watcher := by simpa [PipelineLabel.idle] using idle
    subst same
    simp [Pipeline.potential, finalize_load_rank stepped]
  | found party queue _ stands _ stepped leaves =>
    have left := leaves_potential leaves stands
    have same := finalize_load_rank stepped
    simp only [Pipeline.potential] at left ⊢
    omega
  | finalized party queue _ stands _ stepped leaves =>
    have same : party = .watcher := by simpa [PipelineLabel.idle] using idle
    subst same
    have left := leaves_potential leaves stands
    have bounded := finalize_locked_rank stepped
    simp only [Pipeline.potential, Function.update_of_ne, ne_eq, reduceCtorEq,
      not_false_eq_true] at left ⊢
    omega

end JPipe
