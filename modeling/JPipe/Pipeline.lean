import JPipe.QueueSafety
import JPipe.ReaderSafety
import JPipe.Schedules
import Mathlib.Data.List.Basic

/-!
# Reader, writer and watcher over one queue

The three threads of `orchestrate_threads`. The reader takes its bytes from the
input and its answers from the queue; the steps of its call of
`jp_queue_push_uncommitted` are those of the producer. The writer pops until the
queue answers `JP_ESHUTTING_DOWN`, or until a record cannot be written. The
reader and the writer call `jp_queue_finalize` when they leave, the watcher on a
signal; each call is a load and, on an active queue, a section under the lock.

A block the reader holds is the block of the queue it was handed: storing bytes
and setting `length` to 0 after the reservation write to its slot.
-/

namespace JPipe

/-- The threads that call `jp_queue_finalize`. -/
inductive Party where
  | reader
  | writer
  | watcher
deriving DecidableEq, Repr

/-- Where `jp_writer_produce` stands: in its loop, at `clean_up`, or past it. -/
inductive WriterPoint where
  | running
  | cleanUp
  | returned
deriving DecidableEq, Repr

/-- The queue with its users: the bytes not read yet, and the number of calls each
party has inside of `jp_queue_finalize`. -/
structure Pipeline where
  queue : Queue (List Byte)
  reader : Reader
  input : List Byte
  writer : WriterPoint
  finalizing : Party → Nat

/-- What the threads do: a call of the reader to the poller or to `read`, a step
inside of its call of `jp_queue_push_uncommitted`, its `jp_queue_push_commit`, a
step of the writer as the consumer, a failing write, and the two steps of
`jp_queue_finalize`. -/
inductive PipelineLabel where
  | call (event : ReaderEvent)
  | push (label : QueueLabel (List Byte))
  | commit
  | pop (label : QueueLabel (List Byte))
  | writeFailed
  | finalizeLoad (party : Party)
  | finalizeLocked (party : Party)
deriving DecidableEq, Repr

/-- The threads before their first step. -/
def Pipeline.start (capacity : Nat) (policy : Policy) (blocks : Nat → List Byte)
    (stdin : List Byte) : Pipeline where
  queue := jpQueueCreate capacity policy blocks
  reader := Reader.start
  input := stdin
  writer := .running
  finalizing := fun _ => 0

/-- The calls of the reader that store no bytes and leave the queue alone. -/
def ReaderEvent.quiet : ReaderEvent → Bool
  | .created _ | .registered _ | .waited _ => true
  | .read (.data _) => false
  | .read _ => true
  | .pushed _ | .committed | .finalized => false

/-- A call to the poller or to `read`. Bytes come from the input in order, and the
end of file after all of them. -/
def Pipeline.call (chunkSize : Nat) (state : Pipeline) (event : ReaderEvent) : Option Pipeline :=
  match event with
  | .read (.data bytes) =>
    if bytes <+: state.input then
      (state.reader.step chunkSize event).bind fun reader =>
        let read := { state with reader := reader, input := state.input.drop bytes.length }
        match reader.block with
        | none => some read
        | some content =>
          (fill state.queue content).map fun queue => { read with queue := queue }
    else none
  | _ =>
    if event.quiet ∧ (event = .read .eof → state.input = []) then
      (state.reader.step chunkSize event).map fun reader => { state with reader := reader }
    else none

/-- A step inside of `jp_queue_push_uncommitted`. When the call returns, the reader
goes on with the answer; a block it was handed starts with `length` 0. -/
def Pipeline.push (chunkSize : Nat) (state : Pipeline) (label : QueueLabel (List Byte)) :
    Option Pipeline :=
  if state.reader.point = .reserve ∧ label.inPush then
    (state.queue.step label).bind fun queue =>
      match queue.producer with
      | .outside answer =>
        (state.reader.step chunkSize (.pushed answer)).map fun reader =>
          { state with queue := queue, reader := reader }
      | .holding _ =>
        (fill queue []).bind fun queue =>
          (state.reader.step chunkSize (.pushed .ok)).map fun reader =>
            { state with queue := queue, reader := reader }
      | _ => some { state with queue := queue }
  else none

/-- `jp_queue_push_commit` by the reader. -/
def Pipeline.commit (chunkSize : Nat) (state : Pipeline) : Option Pipeline :=
  (jpQueuePushCommit state.queue).bind fun queue =>
    (state.reader.step chunkSize .committed).map fun reader =>
      { state with queue := queue, reader := reader }

/-- A step of the writer as the consumer. It leaves its loop when the queue answers
that it is finalized. -/
def Pipeline.pop (state : Pipeline) (label : QueueLabel (List Byte)) : Option Pipeline :=
  if state.writer = .running ∧ label.inPop then
    (state.queue.step label).map fun queue =>
      { state with
        queue := queue
        writer := if queue.consumer = .outside .eshuttingDown then .cleanUp else .running }
  else none

/-- A record of the block the writer reads cannot be written. -/
def Pipeline.writeFailed (state : Pipeline) : Option Pipeline :=
  match state.writer, state.queue.consumer with
  | .running, .reading _ _ => some { state with writer := .cleanUp }
  | _, _ => none

/-- The party stands at its call of `jp_queue_finalize`, or inside of it; the watcher
calls at any time. -/
def Pipeline.finalizes (state : Pipeline) : Party → Bool
  | .reader => state.reader.point = .cleanUp
  | .writer => state.writer = .cleanUp
  | .watcher => true

/-- After `jp_queue_finalize` the reader and the writer return. -/
def Pipeline.leave (chunkSize : Nat) (state : Pipeline) : Party → Option Pipeline
  | .reader =>
    (state.reader.step chunkSize .finalized).map fun reader => { state with reader := reader }
  | .writer => some { state with writer := .returned }
  | .watcher => some state

/-- The load of `active` in `jp_queue_finalize`. -/
def Pipeline.finalizeLoad (chunkSize : Nat) (state : Pipeline) (party : Party) : Option Pipeline :=
  if state.finalizes party ∧ (party ≠ .watcher → state.finalizing party = 0) then
    (JPipe.finalizeLoad state.queue).bind fun queue =>
      if state.queue.active then
        some { state with
          queue := queue
          finalizing := Function.update state.finalizing party (state.finalizing party + 1) }
      else { state with queue := queue }.leave chunkSize party
  else none

/-- The section of `jp_queue_finalize` under the lock. -/
def Pipeline.finalizeLocked (chunkSize : Nat) (state : Pipeline) (party : Party) :
    Option Pipeline :=
  if state.finalizes party ∧ 0 < state.finalizing party then
    (JPipe.finalizeLocked state.queue).bind fun queue =>
      Pipeline.leave chunkSize { state with
        queue := queue
        finalizing := Function.update state.finalizing party (state.finalizing party - 1) } party
  else none

/-- One step of one of the threads. -/
def Pipeline.step (chunkSize : Nat) (state : Pipeline) : PipelineLabel → Option Pipeline
  | .call event => state.call chunkSize event
  | .push label => state.push chunkSize label
  | .commit => state.commit chunkSize
  | .pop label => state.pop label
  | .writeFailed => state.writeFailed
  | .finalizeLoad party => state.finalizeLoad chunkSize party
  | .finalizeLocked party => state.finalizeLocked chunkSize party

/-! ### What one step can do -/

/-- What changes when a party returns from `jp_queue_finalize`. -/
inductive Leaves (chunkSize : Nat) (state : Pipeline) : Party → Pipeline → Prop where
  | reader (reader : Reader) (taken : state.reader.step chunkSize .finalized = some reader) :
      Leaves chunkSize state .reader { state with reader := reader }
  | writer : Leaves chunkSize state .writer { state with writer := .returned }
  | watcher : Leaves chunkSize state .watcher state

/-- The steps of the threads, by what they do to the queue and to the reader. -/
inductive Moves (chunkSize : Nat) (state : Pipeline) : PipelineLabel → Pipeline → Prop where
  | called (event : ReaderEvent) (reader : Reader) (quiet : event.quiet = true)
      (ended : event = .read .eof → state.input = [])
      (taken : state.reader.step chunkSize event = some reader) :
      Moves chunkSize state (.call event) { state with reader := reader }
  | discarded (bytes : List Byte) (reader : Reader) (arrived : bytes <+: state.input)
      (taken : state.reader.step chunkSize (.read (.data bytes)) = some reader)
      (unheld : reader.block = none) :
      Moves chunkSize state (.call (.read (.data bytes)))
        { state with reader := reader, input := state.input.drop bytes.length }
  | stored (bytes content : List Byte) (reader : Reader) (queue : Queue (List Byte))
      (arrived : bytes <+: state.input)
      (taken : state.reader.step chunkSize (.read (.data bytes)) = some reader)
      (block : reader.block = some content) (filled : fill state.queue content = some queue) :
      Moves chunkSize state (.call (.read (.data bytes)))
        { state with queue := queue, reader := reader, input := state.input.drop bytes.length }
  | pushing (label : QueueLabel (List Byte)) (queue : Queue (List Byte))
      (standing : state.reader.point = .reserve) (inside : label.inPush = true)
      (taken : state.queue.step label = some queue)
      (unheld : ∀ slot, queue.producer ≠ .holding slot) :
      Moves chunkSize state (.push label) { state with queue := queue }
  | refused (label : QueueLabel (List Byte)) (queue : Queue (List Byte)) (answer : Errno)
      (reader : Reader) (standing : state.reader.point = .reserve) (inside : label.inPush = true)
      (taken : state.queue.step label = some queue) (answered : queue.producer = .outside answer)
      (goes : state.reader.step chunkSize (.pushed answer) = some reader) :
      Moves chunkSize state (.push label) { state with queue := queue, reader := reader }
  | reserved (label : QueueLabel (List Byte)) (queue cleared : Queue (List Byte)) (slot : Nat)
      (reader : Reader) (standing : state.reader.point = .reserve) (inside : label.inPush = true)
      (taken : state.queue.step label = some queue) (holds : queue.producer = .holding slot)
      (clears : fill queue [] = some cleared)
      (goes : state.reader.step chunkSize (.pushed .ok) = some reader) :
      Moves chunkSize state (.push label) { state with queue := cleared, reader := reader }
  | committed (queue : Queue (List Byte)) (reader : Reader)
      (taken : jpQueuePushCommit state.queue = some queue)
      (goes : state.reader.step chunkSize .committed = some reader) :
      Moves chunkSize state .commit { state with queue := queue, reader := reader }
  | popped (label : QueueLabel (List Byte)) (queue : Queue (List Byte))
      (running : state.writer = .running) (inside : label.inPop = true)
      (taken : state.queue.step label = some queue) :
      Moves chunkSize state (.pop label)
        { state with
          queue := queue
          writer := if queue.consumer = .outside .eshuttingDown then .cleanUp else .running }
  | writeFailed (running : state.writer = .running) :
      Moves chunkSize state .writeFailed { state with writer := .cleanUp }
  | entered (party : Party) (queue : Queue (List Byte)) (stands : state.finalizes party = true)
      (active : state.queue.active = true) (taken : finalizeLoad state.queue = some queue) :
      Moves chunkSize state (.finalizeLoad party)
        { state with
          queue := queue
          finalizing := Function.update state.finalizing party (state.finalizing party + 1) }
  | found (party : Party) (queue : Queue (List Byte)) (next : Pipeline)
      (stands : state.finalizes party = true) (inactive : state.queue.active = false)
      (taken : finalizeLoad state.queue = some queue)
      (leaves : Leaves chunkSize { state with queue := queue } party next) :
      Moves chunkSize state (.finalizeLoad party) next
  | finalized (party : Party) (queue : Queue (List Byte)) (next : Pipeline)
      (stands : state.finalizes party = true) (called : 0 < state.finalizing party)
      (taken : finalizeLocked state.queue = some queue)
      (leaves : Leaves chunkSize { state with
        queue := queue
        finalizing := Function.update state.finalizing party (state.finalizing party - 1) }
        party next) :
      Moves chunkSize state (.finalizeLocked party) next

/-- Leaving is one of the ways to leave. -/
theorem leave_leaves {chunkSize : Nat} {state next : Pipeline} {party : Party}
    (taken : state.leave chunkSize party = some next) : Leaves chunkSize state party next := by
  cases party with
  | reader =>
    obtain ⟨reader, stepped, rfl⟩ := Option.map_eq_some_iff.mp taken
    exact .reader reader stepped
  | writer =>
    obtain rfl := Option.some.inj taken
    exact .writer
  | watcher =>
    obtain rfl := Option.some.inj taken
    exact .watcher

/-- A call of the reader reads bytes or is quiet. -/
theorem call_moves {chunkSize : Nat} {state next : Pipeline} {event : ReaderEvent}
    (taken : state.call chunkSize event = some next) : Moves chunkSize state (.call event) next := by
  unfold Pipeline.call at taken
  split at taken
  · rename_i bytes
    by_cases arrived : bytes <+: state.input
    · rw [if_pos arrived] at taken
      obtain ⟨reader, stepped, following⟩ := Option.bind_eq_some_iff.mp taken
      cases block : reader.block with
      | none =>
        simp only [block] at following
        obtain rfl := Option.some.inj following
        exact .discarded bytes reader arrived stepped block
      | some content =>
        simp only [block] at following
        obtain ⟨queue, filled, rfl⟩ := Option.map_eq_some_iff.mp following
        exact .stored bytes content reader queue arrived stepped block filled
    · simp [arrived] at taken
  · by_cases silent : event.quiet ∧ (event = .read .eof → state.input = [])
    · rw [if_pos silent] at taken
      obtain ⟨reader, stepped, rfl⟩ := Option.map_eq_some_iff.mp taken
      exact .called event reader silent.1 silent.2 stepped
    · rw [if_neg silent] at taken
      simp at taken

/-- A step inside of the reservation goes on, is refused or gets a block. -/
theorem push_step_moves {chunkSize : Nat} {state next : Pipeline} {label : QueueLabel (List Byte)}
    (taken : state.push chunkSize label = some next) : Moves chunkSize state (.push label) next := by
  unfold Pipeline.push at taken
  by_cases calls : state.reader.point = .reserve ∧ label.inPush
  · rw [if_pos calls] at taken
    obtain ⟨queue, stepped, following⟩ := Option.bind_eq_some_iff.mp taken
    cases point : queue.producer with
    | outside answer =>
      simp only [point] at following
      obtain ⟨reader, goes, rfl⟩ := Option.map_eq_some_iff.mp following
      exact .refused label queue answer reader calls.1 calls.2 stepped point goes
    | holding slot =>
      simp only [point] at following
      obtain ⟨cleared, clears, rest⟩ := Option.bind_eq_some_iff.mp following
      obtain ⟨reader, goes, rfl⟩ := Option.map_eq_some_iff.mp rest
      exact .reserved label queue cleared slot reader calls.1 calls.2 stepped point clears goes
    | _ =>
      simp only [point] at following
      obtain rfl := Option.some.inj following
      exact .pushing label queue calls.1 calls.2 stepped (by simp [point])
  · rw [if_neg calls] at taken
    simp at taken

/-- Every step is one of the moves. -/
theorem step_moves {chunkSize : Nat} {state next : Pipeline} {label : PipelineLabel}
    (taken : state.step chunkSize label = some next) : Moves chunkSize state label next := by
  cases label with
  | call event => exact call_moves taken
  | push label => exact push_step_moves taken
  | commit =>
    obtain ⟨queue, stepped, following⟩ := Option.bind_eq_some_iff.mp taken
    obtain ⟨reader, goes, rfl⟩ := Option.map_eq_some_iff.mp following
    exact .committed queue reader stepped goes
  | pop label =>
    rw [Pipeline.step, Pipeline.pop] at taken
    by_cases running : state.writer = .running ∧ label.inPop
    · rw [if_pos running] at taken
      obtain ⟨queue, stepped, rfl⟩ := Option.map_eq_some_iff.mp taken
      exact .popped label queue running.1 running.2 stepped
    · rw [if_neg running] at taken
      simp at taken
  | writeFailed =>
    rw [Pipeline.step, Pipeline.writeFailed] at taken
    split at taken
    · obtain rfl := Option.some.inj taken
      exact .writeFailed ‹_›
    · simp at taken
  | finalizeLoad party =>
    rw [Pipeline.step, Pipeline.finalizeLoad] at taken
    by_cases stands : state.finalizes party ∧ (party ≠ .watcher → state.finalizing party = 0)
    · rw [if_pos stands] at taken
      obtain ⟨queue, stepped, following⟩ := Option.bind_eq_some_iff.mp taken
      cases active : state.queue.active with
      | true =>
        rw [if_pos active] at following
        obtain rfl := Option.some.inj following
        exact .entered party queue stands.1 active stepped
      | false =>
        rw [if_neg (by simp [active])] at following
        exact .found party queue next stands.1 active stepped (leave_leaves following)
    · rw [if_neg stands] at taken
      simp at taken
  | finalizeLocked party =>
    rw [Pipeline.step, Pipeline.finalizeLocked] at taken
    by_cases stands : state.finalizes party ∧ 0 < state.finalizing party
    · rw [if_pos stands] at taken
      obtain ⟨queue, stepped, following⟩ := Option.bind_eq_some_iff.mp taken
      exact .finalized party queue next stands.1 stands.2 stepped (leave_leaves following)
    · rw [if_neg stands] at taken
      simp at taken

/-! ### The queue of a run -/

/-- Leaving does nothing to the queue. -/
theorem leaves_queue {chunkSize : Nat} {state next : Pipeline} {party : Party}
    (leaves : Leaves chunkSize state party next) : next.queue = state.queue := by
  cases leaves <;> rfl

/-- Every step of a thread is a schedule of the queue. It pops only while the writer
is in its loop. -/
theorem step_projects {chunkSize : Nat} {state next : Pipeline} {label : PipelineLabel}
    (taken : state.step chunkSize label = some next) :
    ∃ labels, Schedules.run Queue.step state.queue labels = some next.queue ∧
      (state.writer ≠ .running → ∀ label ∈ labels, label.inPop = false) := by
  have single (label : QueueLabel (List Byte)) (queue : Queue (List Byte))
      (stepped : state.queue.step label = some queue) :
      Schedules.run Queue.step state.queue [label] = some queue :=
    (Schedules.run_cons_iff _ _ _ _ _).mpr ⟨queue, stepped, rfl⟩
  cases step_moves taken with
  | called event reader _ _ _ => exact ⟨[], rfl, by simp⟩
  | discarded bytes reader _ _ _ => exact ⟨[], rfl, by simp⟩
  | stored bytes content reader queue _ _ _ filled =>
    exact ⟨[.fill content], single _ queue filled, by simp [QueueLabel.inPop]⟩
  | pushing label queue _ inside stepped _ =>
    refine ⟨[label], single _ queue stepped, ?_⟩
    cases label <;> simp_all [QueueLabel.inPop, QueueLabel.inPush]
  | refused label queue answer reader _ inside stepped _ _ =>
    refine ⟨[label], single _ queue stepped, ?_⟩
    cases label <;> simp_all [QueueLabel.inPop, QueueLabel.inPush]
  | reserved label queue cleared slot reader _ inside stepped _ clears _ =>
    refine ⟨[label, .fill []], ?_, ?_⟩
    · exact (Schedules.run_cons_iff _ _ _ _ _).mpr
        ⟨queue, stepped, (Schedules.run_cons_iff _ _ _ _ _).mpr ⟨cleared, clears, rfl⟩⟩
    · cases label <;> simp_all [QueueLabel.inPop, QueueLabel.inPush]
  | committed queue reader stepped _ =>
    exact ⟨[.pushCommit], single _ queue stepped, by simp [QueueLabel.inPop]⟩
  | popped label queue running _ stepped =>
    exact ⟨[label], single _ queue stepped, fun left => absurd running left⟩
  | writeFailed _ => exact ⟨[], rfl, by simp⟩
  | entered party queue _ _ stepped =>
    exact ⟨[.finalizeLoad], single _ queue stepped, by simp [QueueLabel.inPop]⟩
  | found party queue _ _ _ stepped leaves =>
    rw [leaves_queue leaves]
    exact ⟨[.finalizeLoad], single _ queue stepped, by simp [QueueLabel.inPop]⟩
  | finalized party queue _ _ _ stepped leaves =>
    rw [leaves_queue leaves]
    exact ⟨[.finalizeLocked], single _ queue stepped, by simp [QueueLabel.inPop]⟩

/-- What every step of the queue keeps, every step of a thread keeps. -/
theorem step_keeps {chunkSize : Nat} {state next : Pipeline} {label : PipelineLabel}
    {invariant : Queue (List Byte) → Prop}
    (preserved : ∀ queue label after, invariant queue → queue.step label = some after →
      invariant after)
    (initial : invariant state.queue) (taken : state.step chunkSize label = some next) :
    invariant next.queue := by
  obtain ⟨labels, ran, _⟩ := step_projects taken
  exact Schedules.run_invariant preserved initial ran

/-- The queue of the threads behaves as a queue. -/
theorem pipeline_refines_queue {chunkSize : Nat} {state final : Pipeline}
    {schedule : List PipelineLabel}
    (completed : Schedules.run (Pipeline.step chunkSize) state schedule = some final) :
    ∃ labels, Schedules.run Queue.step state.queue labels = some final.queue := by
  have simulated (before : Pipeline) (label : PipelineLabel) (after : Pipeline) (_ : True)
      (taken : before.step chunkSize label = some after) :
      ∃ labels, Schedules.run Queue.step before.queue labels = some after.queue := by
    obtain ⟨labels, ran, _⟩ := step_projects taken
    exact ⟨labels, ran⟩
  exact Schedules.run_projects Pipeline.queue (fun _ _ _ _ _ => trivial) simulated trivial completed

end JPipe
