import JPipe.Pairing
import JPipe.Schedules

/-!
# Leaving the loop after the finalization

Once the queue is inactive the reader is to leave its loop instead of waiting for
input again. Only `jp_queue_push_uncommitted` tells it that the queue is inactive,
and the reader calls that only after an event and only without a block. So it
leaves when it has no block, or the poller fails. A poll that times out takes it
back to the poller at once, and a block reserved earlier takes it to `read` and
from there to the poller again.
-/

namespace JPipe

/-- The reader is on its way out: it never waits for input again, and until it is
past its loop a step of its own takes it there. -/
structure LeavesLoop (chunkSize : Nat) (state : Pipeline) : Prop where
  unwaiting : ∀ schedule final,
    Schedules.run (Pipeline.step chunkSize) state schedule = some final →
    final.reader.point ≠ .wait
  leaves : ∀ schedule final,
    Schedules.run (Pipeline.step chunkSize) state schedule = some final →
    final.reader.Over ∨
      ∃ label next, final.step chunkSize (.push label) = some next ∧ next.reader.Over

/-- The reader is past its loop, or is about to call the inactive queue. -/
def Pipeline.Departing (state : Pipeline) : Prop :=
  state.queue.active = false ∧
    (state.reader.Over ∨
      state.reader.point = .reserve ∧ ∃ answer, state.queue.producer = .outside answer)

/-- A call that starts on an inactive queue is answered at once. -/
theorem outside_answered {β : Type} {queue next : Queue β} {label : QueueLabel β} {answer : Errno}
    (inactive : queue.active = false) (outside : queue.producer = .outside answer)
    (inside : label.inPush = true) (taken : queue.step label = some next) :
    next.producer = .outside .eshuttingDown := by
  cases label with
  | pushLoadActive =>
    rcases push_load_active_cases taken with ⟨_, ⟨active, _⟩ | ⟨_, rfl⟩⟩
    · simp [inactive] at active
    · rfl
  | pushLoadLength =>
    have loading := (push_load_length_cases taken).1
    simp [outside] at loading
  | pushLocked =>
    have entering := (push_locked_cases taken).1
    simp [outside, ProducerPoint.entering] at entering
  | wakeProducer =>
    have asleep := (wake_producer_cases taken).1
    simp [outside] at asleep
  | _ => simp [QueueLabel.inPush] at inside

/-- A signal does not move a producer outside of its calls. -/
theorem signalled_outside {queue next : Queue (List Byte)} {label : QueueLabel (List Byte)}
    (outside : label.inPop = true ∨ label = .finalizeLoad ∨ label = .finalizeLocked)
    (taken : queue.step label = some next) {answer : Errno}
    (point : queue.producer = .outside answer) : next.producer = .outside answer := by
  rcases producer_signalled outside taken with same | woken
  · exact same.trans point
  · rw [woken, point]
    rfl

/-- A reader that calls the queue, or is past its loop, reads nothing and asks the
poller nothing. -/
theorem departing_calls {chunkSize : Nat} {reader next : Reader} {event : ReaderEvent}
    (departing : reader.Over ∨ reader.point = .reserve)
    (taken : reader.step chunkSize event = some next) :
    event = .finalized ∨ ∃ answer, event = .pushed answer := by
  cases step_reads taken with
  | pushed answer _ => exact Or.inr ⟨answer, rfl⟩
  | finalized _ => exact Or.inl rfl
  | _ => simp_all [Reader.Over]

/-- After `jp_queue_finalize` the reader is still on its way out. -/
theorem leaves_departing {chunkSize : Nat} {state next : Pipeline} {party : Party}
    (departing : state.Departing) (leaves : Leaves chunkSize state party next) :
    next.Departing := by
  cases leaves with
  | reader reader taken =>
    exact ⟨departing.1, Or.inl (Or.inr (finalized_step taken).2.1)⟩
  | writer => exact departing
  | watcher => exact departing

/-- Every step of any thread leaves the reader on its way out. -/
theorem step_departing {chunkSize : Nat} {state next : Pipeline} {label : PipelineLabel}
    (departing : state.Departing) (taken : state.step chunkSize label = some next) :
    next.Departing := by
  have inactive : next.queue.active = false :=
    step_keeps (fun _ _ _ => finalized_stays) departing.1 taken
  have calls {event : ReaderEvent} {reader : Reader}
      (goes : state.reader.step chunkSize event = some reader) :
      event = .finalized ∨ ∃ answer, event = .pushed answer :=
    departing_calls (departing.2.imp_right And.left) goes
  have signalled {queue : Queue (List Byte)} {label : QueueLabel (List Byte)}
      {writer : WriterPoint} {calls : Party → Nat} (inactive : queue.active = false)
      (outside : label.inPop = true ∨ label = .finalizeLoad ∨ label = .finalizeLocked)
      (stepped : state.queue.step label = some queue) :
      Pipeline.Departing { state with queue := queue, writer := writer, finalizing := calls } := by
    refine ⟨inactive, departing.2.imp_right ?_⟩
    rintro ⟨standing, answer, point⟩
    exact ⟨standing, answer, signalled_outside outside stepped point⟩
  have answered {queue : Queue (List Byte)} {label : QueueLabel (List Byte)}
      (standing : state.reader.point = .reserve) (inside : label.inPush = true)
      (stepped : state.queue.step label = some queue) :
      queue.producer = .outside .eshuttingDown := by
    rcases departing.2 with past | ⟨_, answer, outside⟩
    · simp [Reader.Over, standing] at past
    · exact outside_answered departing.1 outside inside stepped
  cases step_moves taken with
  | called event reader quiet _ goes =>
    rcases calls goes with rfl | ⟨answer, rfl⟩ <;> simp [ReaderEvent.quiet] at quiet
  | discarded bytes reader _ goes _ => rcases calls goes with event | ⟨answer, event⟩ <;> cases event
  | stored bytes content reader queue _ goes _ _ =>
    rcases calls goes with event | ⟨answer, event⟩ <;> cases event
  | pushing label queue standing inside stepped _ =>
    exact ⟨inactive, Or.inr ⟨standing, _, answered standing inside stepped⟩⟩
  | refused label queue answer reader standing inside stepped refusal goes =>
    have shutting : answer = .eshuttingDown :=
      ProducerPoint.outside.inj (refusal.symm.trans (answered standing inside stepped))
    obtain ⟨_, rfl⟩ := pushed_step goes
    exact ⟨inactive, Or.inl (Or.inl (by simp [Reader.afterPush, shutting]))⟩
  | reserved label queue cleared slot reader standing inside stepped holds _ _ =>
    simp [answered standing inside stepped] at holds
  | committed queue reader _ goes => rcases calls goes with event | ⟨answer, event⟩ <;> cases event
  | popped label queue _ inside stepped => exact signalled inactive (Or.inl inside) stepped
  | writeFailed _ => exact departing
  | entered party queue _ _ stepped => exact signalled inactive (Or.inr (Or.inl rfl)) stepped
  | found party queue _ _ _ stepped leaves =>
    rw [leaves_queue leaves] at inactive
    exact leaves_departing (signalled inactive (Or.inr (Or.inl rfl)) stepped) leaves
  | finalized party queue _ _ _ stepped leaves =>
    rw [leaves_queue leaves] at inactive
    exact leaves_departing (signalled inactive (Or.inr (Or.inr rfl)) stepped) leaves

/-- The call of a reader that finds the queue inactive takes it out of its loop. -/
theorem inactive_call_leaves {chunkSize : Nat} {state : Pipeline} {answer : Errno}
    (inactive : state.queue.active = false) (standing : state.reader.point = .reserve)
    (outside : state.queue.producer = .outside answer) :
    state.step chunkSize (.push .pushLoadActive) = some { state with
      queue := { state.queue with producer := .outside .eshuttingDown }
      reader := state.reader.afterPush .eshuttingDown } := by
  simp [Pipeline.step, Pipeline.push, standing, QueueLabel.inPush, Queue.step, pushLoadActive,
    outside, inactive, Reader.step]

/-- A reader on its way out leaves its loop. -/
theorem departing_leaves {chunkSize : Nat} {state : Pipeline} (departing : state.Departing) :
    LeavesLoop chunkSize state := by
  have kept {schedule : List PipelineLabel} {final : Pipeline}
      (completed : Schedules.run (Pipeline.step chunkSize) state schedule = some final) :
      final.Departing :=
    Schedules.run_invariant (fun _ _ _ => step_departing) departing completed
  constructor
  · intro schedule final completed waiting
    rcases (kept completed).2 with past | ⟨standing, _⟩
    · simp [Reader.Over, waiting] at past
    · simp [waiting] at standing
  · intro schedule final completed
    rcases kept completed with ⟨inactive, past | ⟨standing, answer, outside⟩⟩
    · exact Or.inl past
    · exact Or.inr ⟨_, _, inactive_call_leaves inactive standing outside, Or.inl rfl⟩

/-- A reader that waits without a block has left its last call of the queue. -/
theorem waiting_outside {chunkSize : Nat} {stdin : List Byte} {state : Pipeline}
    (paired : Paired chunkSize stdin state) (calling : state.Calling)
    (standing : state.reader.point = .wait) (none : state.reader.block = none) :
    ∃ answer, state.queue.producer = .outside answer := by
  have between := calling.resolve_left (by simp [standing])
  have unheld := paired.held.trans none
  cases point : state.queue.producer with
  | outside answer => exact ⟨answer, rfl⟩
  | holding slot => simp [Queue.held, point] at unheld
  | _ => simp [point, ProducerPoint.between] at between

/-- A reader with an empty block goes back to the poller when there is nothing to
read. -/
theorem drained_waits (chunkSize : Nat) (state : Pipeline) {content : List Byte}
    (standing : state.reader.point = .read) (reserved : state.reader.queueErr = .ok)
    (block : state.reader.block = some content) (empty : state.reader.held = []) :
    state.step chunkSize (.call (.read .eagain)) =
      some { state with reader := { state.reader with point := .wait } } := by
  simp [Pipeline.step, Pipeline.call, ReaderEvent.quiet, Reader.step, standing, Reader.afterRead,
    reserved, block, Reader.afterNoData, empty]

/-- In any run of the threads, the return of a `jp_poller_wait` that happens while
the queue is inactive takes the reader out of its loop exactly when the poll did
not time out, and failed or found the reader without a block. -/
theorem finalized_wait_leaves_iff {capacity chunkSize : Nat} (capacityPositive : 0 < capacity)
    (chunkPositive : 0 < chunkSize) (policy : Policy) (blocks : Nat → List Byte)
    (stdin : List Byte) (schedule : List PipelineLabel) (state next : Pipeline)
    (completed : Schedules.run (Pipeline.step chunkSize)
      (Pipeline.start capacity policy blocks stdin) schedule = some state)
    (inactive : state.queue.active = false) (answer : Errno)
    (returned : state.step chunkSize (.call (.waited answer)) = some next) :
    LeavesLoop chunkSize next ↔
      answer ≠ .etryagain ∧ (answer = .ereadFailed ∨ state.reader.block = none) := by
  have paired : Paired chunkSize stdin state :=
    Schedules.run_invariant (fun _ _ _ => step_paired chunkPositive)
      (start_paired capacityPositive policy chunkSize blocks stdin) completed
  have calling : state.Calling :=
    Schedules.run_invariant (fun _ _ _ => step_calling) (Or.inr rfl) completed
  obtain ⟨standing, rfl⟩ : state.reader.point = .wait ∧
      next = { state with reader := state.reader.afterWait answer } := by
    cases step_moves returned with
    | called _ reader _ _ goes =>
      cases step_reads goes with
      | waited _ standing => exact ⟨standing, rfl⟩
  have empty : state.reader.held = [] := stands_at paired.accounted standing
  constructor
  · intro leaves
    have answered : answer ≠ .etryagain := by
      rintro rfl
      exact leaves.unwaiting [] _ rfl (by simp [Reader.afterWait])
    refine ⟨answered, ?_⟩
    by_contra holds
    obtain ⟨unfailed, some⟩ := not_or.mp holds
    obtain ⟨content, block⟩ := Option.ne_none_iff_exists'.mp some
    have moved : state.reader.afterWait answer =
        { state.reader with err := answer, point := .read } := by
      simp [Reader.afterWait, unfailed, answered, Reader.loopTop, block]
    rw [moved] at leaves
    have drained := drained_waits chunkSize
      { state with reader := { state.reader with err := answer, point := .read } } rfl
      (paired.accounted.reserved content block) block empty
    exact leaves.unwaiting [.call (.read .eagain)] _
      ((Schedules.run_cons_iff _ _ _ _ _).mpr ⟨_, drained, rfl⟩) rfl
  · rintro ⟨answered, failed | none⟩
    · apply departing_leaves
      exact ⟨inactive, Or.inl (Or.inl (by simp [Reader.afterWait, failed]))⟩
    · apply departing_leaves
      refine ⟨inactive, ?_⟩
      by_cases failed : answer = .ereadFailed
      · exact Or.inl (Or.inl (by simp [Reader.afterWait, failed]))
      · have outside := waiting_outside paired calling standing none
        exact Or.inr ⟨by simp [Reader.afterWait, failed, answered, Reader.loopTop, none], outside⟩

/-- A signal while the reader waits without a block, and an event after it: the
reader leaves. -/
theorem event_after_signal_leaves :
    ∃ state next, Schedules.run (Pipeline.step 1024) (Pipeline.start 1 .wait (fun _ => []) [])
        [.call (.created .ok), .call (.registered .ok), .finalizeLoad .watcher,
          .finalizeLocked .watcher] = some state ∧
      state.step 1024 (.call (.waited .ok)) = some next ∧ LeavesLoop 1024 next := by
  refine ⟨_, _, rfl, rfl, ?_⟩
  refine (finalized_wait_leaves_iff Nat.one_pos (by decide) .wait (fun _ => []) []
    [.call (.created .ok), .call (.registered .ok), .finalizeLoad .watcher,
      .finalizeLocked .watcher] _ _ rfl rfl .ok rfl).mpr ⟨by decide, Or.inr ?_⟩
  rfl

/-- A signal while the reader waits on an idle input, and a poll that times out after
it: the reader waits again. So it does after an event when it has reserved a block
before the signal and finds nothing to read. -/
theorem idle_signal_refuted :
    (∃ state next, Schedules.run (Pipeline.step 1024) (Pipeline.start 1 .wait (fun _ => []) [])
        [.call (.created .ok), .call (.registered .ok), .finalizeLoad .watcher,
          .finalizeLocked .watcher] = some state ∧
      state.queue.active = false ∧ state.reader.block = none ∧
      state.step 1024 (.call (.waited .etryagain)) = some next ∧ next.reader.point = .wait) ∧
    ∃ state next, Schedules.run (Pipeline.step 1024) (Pipeline.start 1 .wait (fun _ => []) [])
        [.call (.created .ok), .call (.registered .ok), .call (.waited .ok), .push .pushLoadActive,
          .push .pushLoadLength, .call (.read .eagain), .finalizeLoad .watcher,
          .finalizeLocked .watcher, .call (.waited .ok)] = some state ∧
      state.queue.active = false ∧ state.reader.block = some [] ∧
      state.step 1024 (.call (.read .eagain)) = some next ∧ next.reader.point = .wait :=
  ⟨⟨_, _, rfl, rfl, rfl, rfl, rfl⟩, ⟨_, _, rfl, rfl, rfl, rfl, rfl⟩⟩

end JPipe
