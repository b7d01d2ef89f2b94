import JPipe.Pipeline
import JPipe.QueueSafety
import JPipe.ReaderSafety
import Mathlib.Data.List.Basic

/-!
# Two accounts of the blocks

The queue and the reader keep separate accounts of one thing: the blocks the
reader committed are those the queue took, and the block the reader holds is the
one the queue handed out, with the bytes stored so far. Every step of any thread
keeps the two accounts in agreement, under both policies and whatever the calls
of the threads answer.
-/

namespace JPipe

/-! ### The reader's part of a step -/

/-- The reader is past its loop. -/
def Reader.Over (reader : Reader) : Prop := reader.point = .cleanUp ∨ reader.point = .returned

/-- Past its loop the reader only finalizes the queue. -/
theorem over_step {chunkSize : Nat} {reader next : Reader} {event : ReaderEvent}
    (past : reader.Over) (taken : reader.step chunkSize event = some next) :
    event = .finalized ∧ next.point = .returned := by
  cases step_reads taken with
  | finalized standing => exact ⟨rfl, rfl⟩
  | _ => simp_all [Reader.Over]

/-- A quiet call leaves the block and what happened to the bytes. -/
theorem quiet_step {chunkSize : Nat} {reader next : Reader} {event : ReaderEvent}
    (quiet : event.quiet = true) (taken : reader.step chunkSize event = some next) :
    next.block = reader.block ∧ next.log = reader.log ∧ next.bytesRead = reader.bytesRead := by
  cases step_reads taken with
  | waited answer standing =>
    rcases after_wait_cases reader answer with ⟨_, moved⟩ | ⟨_, moved⟩ | ⟨_, _, moved⟩ <;>
      rw [moved] <;> exact ⟨rfl, rfl, rfl⟩
  | created answer standing | registered answer standing => exact ⟨rfl, rfl, rfl⟩
  | ended standing | interrupted standing | drained standing | failed standing =>
    exact ⟨rfl, rfl, rfl⟩
  | _ => simp [ReaderEvent.quiet] at quiet

/-- No quiet call is made where a block is reserved. -/
theorem quiet_unreserved {chunkSize : Nat} {reader next : Reader} {event : ReaderEvent}
    (quiet : event.quiet = true) (taken : reader.step chunkSize event = some next) :
    reader.point ≠ .reserve := by
  cases step_reads taken <;> simp_all [ReaderEvent.quiet]

/-- While the queue has not asked to drop, bytes read are stored in the block. -/
theorem data_step {chunkSize : Nat} {reader next : Reader} {bytes : List Byte}
    (keeping : reader.queueErr ≠ .emsgShouldDrop)
    (taken : reader.step chunkSize (.read (.data bytes)) = some next) :
    ∃ content, reader.block = some content ∧ 0 < bytes.length ∧
      next.block = some (content ++ bytes) ∧ next.log = reader.log ∧
      next.bytesRead = reader.bytesRead ++ bytes ∧
      (next.point = .commitFull ∨ next.point = .read) := by
  cases step_reads taken with
  | discarded _ standing dropping _ _ => exact absurd dropping keeping
  | filled _ content standing _ block positive _ =>
    exact ⟨content, block, positive, rfl, rfl, rfl, Or.inl rfl⟩
  | stored _ content standing _ block positive _ =>
    exact ⟨content, block, positive, rfl, rfl, rfl, Or.inr rfl⟩

/-- Bytes that leave the reader with a block were stored in it; the queue had not
asked to drop. -/
theorem stored_step {chunkSize : Nat} {reader next : Reader} {bytes content : List Byte}
    (accounted : Accounted chunkSize reader)
    (taken : reader.step chunkSize (.read (.data bytes)) = some next)
    (block : next.block = some content) :
    reader.point = .read ∧ reader.queueErr = .ok ∧ next.queueErr = .ok ∧
      reader.block ≠ none ∧ content = reader.held ++ bytes ∧ next.log = reader.log ∧
      next.bytesRead = reader.bytesRead ++ bytes := by
  cases step_reads taken with
  | discarded _ standing dropping _ _ =>
    have reserved : reader.queueErr = .ok := accounted.reserved content block
    exact absurd (dropping.symm.trans reserved) (by decide)
  | filled _ before standing _ held _ _ | stored _ before standing _ held _ _ =>
    have reserved : reader.queueErr = .ok := accounted.reserved before held
    refine ⟨standing, reserved, reserved, by simp [held], ?_, rfl, rfl⟩
    rw [Reader.held, held]
    exact (Option.some.inj block).symm

/-- Bytes that leave the reader without a block were discarded as the queue asked. -/
theorem discarded_step {chunkSize : Nat} {reader next : Reader} {bytes : List Byte}
    (taken : reader.step chunkSize (.read (.data bytes)) = some next)
    (unheld : next.block = none) :
    reader.point = .read ∧ reader.queueErr = .emsgShouldDrop ∧ reader.block = none ∧
      next.log = reader.log ++ [.discarded bytes] ∧
      next.bytesRead = reader.bytesRead ++ bytes := by
  cases step_reads taken with
  | discarded _ standing dropping _ _ => exact ⟨standing, dropping, unheld, rfl, rfl⟩
  | filled | stored => simp at unheld

/-- A commit gives up a block that is not empty. -/
theorem commit_step {chunkSize : Nat} (positive : 0 < chunkSize) {reader next : Reader}
    (accounted : Accounted chunkSize reader)
    (taken : reader.step chunkSize .committed = some next) :
    0 < reader.held.length ∧ next.block = none ∧ next.log = reader.log ++ [.committed reader.held] ∧
      next.bytesRead = reader.bytesRead ∧
      (next.Over ∨ next.point = .commitEnd → reader.point = .commitEnd) := by
  cases step_reads taken with
  | committedFull standing =>
    obtain ⟨_, full⟩ : reader.queueErr = .ok ∧ reader.held.length = chunkSize :=
      stands_at accounted standing
    exact ⟨full ▸ positive, rfl, rfl, rfl, by simp [Reader.Over, Reader.loopTop, Reader.commit]⟩
  | committedEnd standing =>
    obtain ⟨_, filled⟩ : reader.queueErr = .ok ∧ 0 < reader.held.length :=
      stands_at accounted standing
    exact ⟨filled, rfl, rfl, rfl, fun _ => standing⟩
  | committedAgain standing =>
    obtain ⟨_, filled⟩ : reader.queueErr = .ok ∧ 0 < reader.held.length :=
      stands_at accounted standing
    exact ⟨filled, rfl, rfl, rfl, by simp [Reader.Over]⟩

/-- After the call of the queue. -/
theorem pushed_step {chunkSize : Nat} {reader next : Reader} {answer : Errno}
    (taken : reader.step chunkSize (.pushed answer) = some next) :
    reader.point = .reserve ∧ next = reader.afterPush answer := by
  cases step_reads taken with
  | pushed _ standing => exact ⟨standing, rfl⟩

/-- After `jp_queue_finalize`. -/
theorem finalized_step {chunkSize : Nat} {reader next : Reader}
    (taken : reader.step chunkSize .finalized = some next) :
    reader.point = .cleanUp ∧ next.point = .returned ∧ next.block = reader.block ∧
      next.log = reader.log ∧ next.bytesRead = reader.bytesRead := by
  cases step_reads taken with
  | finalized standing => exact ⟨standing, rfl, rfl, rfl, rfl⟩

/-- The answers a step can give to the reader: those of the poller and of `read` are
the step's own, and the queue gives a block, the end, or under the dropping policy the
request to drop. -/
def Pipeline.Gives (state : Pipeline) (label : PipelineLabel) : ReaderEvent → Prop
  | .pushed answer =>
    answer = .ok ∨ answer = .eshuttingDown ∨ answer = .emsgShouldDrop ∧ state.queue.policy = .drop
  | .committed | .finalized => True
  | .created answer => label = .call (.created answer)
  | .registered answer => label = .call (.registered answer)
  | .waited answer => label = .call (.waited answer)
  | .read result => label = .call (.read result)

/-- A step of any thread leaves the reader alone or is one of its calls. -/
theorem step_reader {chunkSize : Nat} {state next : Pipeline} {label : PipelineLabel}
    (taken : state.step chunkSize label = some next) :
    next.reader = state.reader ∨
      ∃ event, state.reader.step chunkSize event = some next.reader ∧ state.Gives label event := by
  have left {party : Party} {before : Pipeline} (leaves : Leaves chunkSize before party next)
      (same : before.reader = state.reader) : next.reader = state.reader ∨
        ∃ event, state.reader.step chunkSize event = some next.reader ∧ state.Gives label event := by
    cases leaves with
    | reader reader goes => exact Or.inr ⟨.finalized, same ▸ goes, trivial⟩
    | writer => exact Or.inl same
    | watcher => exact Or.inl same
  cases step_moves taken with
  | called event reader quiet _ goes =>
    refine Or.inr ⟨event, goes, ?_⟩
    cases event with
    | pushed | committed | finalized => simp [ReaderEvent.quiet] at quiet
    | _ => exact rfl
  | discarded bytes reader _ goes _ => exact Or.inr ⟨_, goes, rfl⟩
  | stored bytes content reader queue _ goes _ _ => exact Or.inr ⟨_, goes, rfl⟩
  | refused label queue answer reader _ inside stepped answered goes =>
    refine Or.inr ⟨_, goes, ?_⟩
    rcases push_refused inside stepped answered with ⟨finalized, _⟩ | full
    · exact Or.inr (Or.inl finalized)
    · exact Or.inr (Or.inr full)
  | reserved label queue cleared slot reader _ _ _ _ _ goes => exact Or.inr ⟨_, goes, Or.inl rfl⟩
  | committed queue reader _ goes => exact Or.inr ⟨_, goes, trivial⟩
  | found party queue _ _ _ _ leaves => exact left leaves rfl
  | finalized party queue _ _ _ _ leaves => exact left leaves rfl
  | pushing | popped | writeFailed | entered => exact Or.inl rfl

/-! ### The two accounts -/

/-- The queue took what the reader committed and handed out the block it holds, and
the bytes read come before those to read. -/
structure Paired (chunkSize : Nat) (stdin : List Byte) (state : Pipeline) : Prop where
  consistent : Consistent state.queue
  accounted : Accounted chunkSize state.reader
  committed : state.queue.committed.map Prod.snd = state.reader.committed
  held : state.queue.held = state.reader.block
  input : state.reader.bytesRead ++ state.input = stdin

/-- The threads before their first step. -/
theorem start_paired {capacity : Nat} (positive : 0 < capacity) (policy : Policy) (chunkSize : Nat)
    (blocks : Nat → List Byte) (stdin : List Byte) :
    Paired chunkSize stdin (Pipeline.start capacity policy blocks stdin) where
  consistent := create_consistent positive policy blocks
  accounted := start_accounted chunkSize
  committed := rfl
  held := rfl
  input := rfl

/-- A step the producer does not see keeps the accounts, if the reader keeps its
block and its account. -/
theorem unseen_paired {chunkSize : Nat} {stdin : List Byte} {state next : Pipeline}
    (paired : Paired chunkSize stdin state) (unseen : Unseen state.queue next.queue)
    (consistent : Consistent next.queue) (accounted : Accounted chunkSize next.reader)
    (same : next.reader.block = state.reader.block ∧ next.reader.log = state.reader.log ∧
      next.reader.bytesRead = state.reader.bytesRead ∧ next.input = state.input) :
    Paired chunkSize stdin next := by
  obtain ⟨block, log, bytesRead, input⟩ := same
  constructor
  · exact consistent
  · exact accounted
  · rw [unseen.committed, paired.committed, Reader.committed, Reader.committed, log]
  · rw [unseen.held, paired.held, block]
  · rw [bytesRead, input]
    exact paired.input

/-- The bytes taken from the input are its first. -/
theorem input_drop {bytes input read stdin : List Byte} (arrived : bytes <+: input)
    (split : read ++ input = stdin) : (read ++ bytes) ++ input.drop bytes.length = stdin := by
  obtain ⟨rest, rfl⟩ := arrived
  rw [List.drop_left, List.append_assoc]
  exact split

/-- Bytes discarded leave the queue alone and join the log. -/
theorem discarded_paired {chunkSize : Nat} {stdin : List Byte} {state : Pipeline}
    {bytes : List Byte} {reader : Reader} (paired : Paired chunkSize stdin state)
    (arrived : bytes <+: state.input)
    (taken : state.reader.step chunkSize (.read (.data bytes)) = some reader)
    (unheld : reader.block = none) (accounted : Accounted chunkSize reader) :
    Paired chunkSize stdin
      { state with reader := reader, input := state.input.drop bytes.length } := by
  obtain ⟨_, _, none, log, bytesRead⟩ := discarded_step taken unheld
  constructor
  · exact paired.consistent
  · exact accounted
  · change state.queue.committed.map Prod.snd = reader.committed
    rw [paired.committed, Reader.committed, Reader.committed, log]
    simp
  · exact paired.held.trans (none.trans unheld.symm)
  · change reader.bytesRead ++ state.input.drop bytes.length = stdin
    rw [bytesRead]
    exact input_drop arrived paired.input

/-- Bytes stored go to the block of the queue. -/
theorem stored_paired {chunkSize : Nat} {stdin : List Byte} {state : Pipeline}
    {bytes content : List Byte} {reader : Reader} {queue : Queue (List Byte)}
    (paired : Paired chunkSize stdin state) (arrived : bytes <+: state.input)
    (taken : state.reader.step chunkSize (.read (.data bytes)) = some reader)
    (block : reader.block = some content) (filled : fill state.queue content = some queue)
    (consistent : Consistent queue) (accounted : Accounted chunkSize reader) :
    Paired chunkSize stdin
      { state with queue := queue, reader := reader, input := state.input.drop bytes.length } := by
  obtain ⟨_, _, _, _, _, log, bytesRead⟩ := stored_step paired.accounted taken block
  obtain ⟨slot, holds, rfl⟩ := fill_cases filled
  constructor
  · exact consistent
  · exact accounted
  · change state.queue.committed.map Prod.snd = reader.committed
    rw [paired.committed, Reader.committed, Reader.committed, log]
  · change Queue.held _ = reader.block
    simp [Queue.held, holds, block]
  · change reader.bytesRead ++ state.input.drop bytes.length = stdin
    rw [bytesRead]
    exact input_drop arrived paired.input

/-- A reservation that goes on or is refused leaves no block to hold. -/
theorem unheld_paired {chunkSize : Nat} {stdin : List Byte} {state next : Pipeline}
    {label : QueueLabel (List Byte)} (paired : Paired chunkSize stdin state)
    (standing : state.reader.point = .reserve) (inside : label.inPush = true)
    (taken : state.queue.step label = some next.queue)
    (consistent : Consistent next.queue) (accounted : Accounted chunkSize next.reader)
    (unheld : ∀ slot, next.queue.producer ≠ .holding slot)
    (same : next.reader.block = state.reader.block ∧ next.reader.log = state.reader.log ∧
      next.reader.bytesRead = state.reader.bytesRead ∧ next.input = state.input) :
    Paired chunkSize stdin next := by
  have none : state.reader.block = none := stands_at paired.accounted standing
  obtain ⟨point, moved⟩ := push_moves inside taken
  obtain ⟨block, log, bytesRead, input⟩ := same
  constructor
  · exact consistent
  · exact accounted
  · rw [moved, Reader.committed, log]
    exact paired.committed
  · rw [block, none, Queue.held]
    split
    · exact absurd ‹_› (unheld _)
    · rfl
  · rw [bytesRead, input]
    exact paired.input

/-- The block handed out starts empty. -/
theorem reserved_paired {chunkSize : Nat} {stdin : List Byte} {state : Pipeline}
    {label : QueueLabel (List Byte)} {queue cleared : Queue (List Byte)} {slot : Nat}
    {reader : Reader} (paired : Paired chunkSize stdin state) (inside : label.inPush = true)
    (taken : state.queue.step label = some queue) (holds : queue.producer = .holding slot)
    (clears : fill queue [] = some cleared) (consistent : Consistent cleared)
    (goes : state.reader.step chunkSize (.pushed .ok) = some reader)
    (accounted : Accounted chunkSize reader) :
    Paired chunkSize stdin { state with queue := cleared, reader := reader } := by
  obtain ⟨_, rfl⟩ := pushed_step goes
  obtain ⟨point, rfl⟩ := push_moves inside taken
  obtain ⟨other, _, rfl⟩ := fill_cases clears
  obtain rfl : point = .holding slot := holds
  constructor
  · exact consistent
  · exact accounted
  · exact paired.committed
  · simp_all [Queue.held, Reader.afterPush]
  · exact paired.input

/-- The queue takes the block the reader held. -/
theorem committed_paired {chunkSize : Nat} (positive : 0 < chunkSize) {stdin : List Byte}
    {state : Pipeline} {queue : Queue (List Byte)} {reader : Reader}
    (paired : Paired chunkSize stdin state) (taken : jpQueuePushCommit state.queue = some queue)
    (consistent : Consistent queue)
    (goes : state.reader.step chunkSize .committed = some reader)
    (accounted : Accounted chunkSize reader) :
    Paired chunkSize stdin { state with queue := queue, reader := reader } := by
  obtain ⟨_, none, log, bytesRead, _⟩ := commit_step positive paired.accounted goes
  obtain ⟨slot, holds, rfl⟩ := push_commit_cases taken
  obtain ⟨rfl, _⟩ := paired.consistent.producing slot holds
  have content : state.reader.held = state.queue.blocks state.queue.tail := by
    rw [Reader.held, ← paired.held, Queue.held, holds, Option.getD_some]
  constructor
  · exact consistent
  · exact accounted
  · change (state.queue.committed ++ _).map Prod.snd = reader.committed
    rw [List.map_append, paired.committed, Reader.committed, Reader.committed, log, content]
    simp
  · exact none.symm
  · change reader.bytesRead ++ state.input = stdin
    rw [bytesRead]
    exact paired.input

/-- After `jp_queue_finalize` the accounts stay. -/
theorem leaves_paired {chunkSize : Nat} (positive : 0 < chunkSize) {stdin : List Byte}
    {state next : Pipeline} {party : Party} (paired : Paired chunkSize stdin state)
    (leaves : Leaves chunkSize state party next) : Paired chunkSize stdin next := by
  cases leaves with
  | reader reader taken =>
    obtain ⟨standing, _, block, log, bytesRead⟩ := finalized_step taken
    exact unseen_paired paired (unseen_refl _) paired.consistent
      (step_accounted positive paired.accounted taken) ⟨block, log, bytesRead, rfl⟩
  | writer => exact { paired with }
  | watcher => exact paired

/-- Every step of any thread keeps the accounts. -/
theorem step_paired {chunkSize : Nat} (positive : 0 < chunkSize) {stdin : List Byte}
    {state next : Pipeline} {label : PipelineLabel} (paired : Paired chunkSize stdin state)
    (taken : state.step chunkSize label = some next) : Paired chunkSize stdin next := by
  have consistent : Consistent next.queue :=
    step_keeps (fun _ _ _ => step_consistent) paired.consistent taken
  have accounted {event : ReaderEvent} {reader : Reader}
      (goes : state.reader.step chunkSize event = some reader) : Accounted chunkSize reader :=
    step_accounted positive paired.accounted goes
  have signalled {queue : Queue (List Byte)} {writer : WriterPoint} {calls : Party → Nat}
      (unseen : Unseen state.queue queue) (consistent : Consistent queue) :
      Paired chunkSize stdin
        { state with queue := queue, writer := writer, finalizing := calls } :=
    unseen_paired paired unseen consistent paired.accounted ⟨rfl, rfl, rfl, rfl⟩
  cases step_moves taken with
  | called event reader quiet _ goes =>
    obtain ⟨block, log, bytesRead⟩ := quiet_step quiet goes
    exact unseen_paired paired (unseen_refl _) paired.consistent (accounted goes)
      ⟨block, log, bytesRead, rfl⟩
  | discarded bytes reader arrived goes unheld =>
    exact discarded_paired paired arrived goes unheld (accounted goes)
  | stored bytes content reader queue arrived goes block filled =>
    exact stored_paired paired arrived goes block filled consistent (accounted goes)
  | pushing label queue standing inside stepped unheld =>
    exact unheld_paired paired standing inside stepped consistent paired.accounted unheld
      ⟨rfl, rfl, rfl, rfl⟩
  | refused label queue answer reader standing inside stepped answered goes =>
    have kept := accounted goes
    obtain ⟨_, rfl⟩ := pushed_step goes
    have unreserved : answer ≠ .ok := by
      rcases push_refused inside stepped answered with ⟨rfl, _⟩ | ⟨rfl, _⟩ <;> decide
    exact unheld_paired paired standing inside stepped consistent kept (by simp [answered])
      ⟨by simp [Reader.afterPush, unreserved], rfl, rfl, rfl⟩
  | reserved label queue cleared slot reader _ inside stepped holds clears goes =>
    exact reserved_paired paired inside stepped holds clears consistent goes (accounted goes)
  | committed queue reader stepped goes =>
    exact committed_paired positive paired stepped consistent goes (accounted goes)
  | popped label queue _ inside stepped =>
    exact signalled (pop_unseen inside stepped).1 consistent
  | writeFailed _ => exact { paired with }
  | entered party queue _ _ stepped =>
    exact signalled (finalize_load_unseen stepped).1 consistent
  | found party queue _ _ _ stepped leaves =>
    rw [leaves_queue leaves] at consistent
    exact leaves_paired positive (signalled (finalize_load_unseen stepped).1 consistent) leaves
  | finalized party queue _ _ _ stepped leaves =>
    rw [leaves_queue leaves] at consistent
    exact leaves_paired positive (signalled (finalize_locked_unseen stepped).1 consistent) leaves

/-! ### Where the producer is in its call -/

/-- The producer is in no call of `jp_queue_push_uncommitted`. -/
def ProducerPoint.between : ProducerPoint → Bool
  | .outside _ | .holding _ => true
  | _ => false

/-- A signal moves nobody into a call or out of one. -/
theorem signal_between (point : ProducerPoint) : point.signal.between = point.between := by
  cases point <;> rfl

/-- The steps of the consumer and of the callers of `jp_queue_finalize` at most
signal the producer. -/
theorem producer_signalled {queue next : Queue (List Byte)} {label : QueueLabel (List Byte)}
    (outside : label.inPop = true ∨ label = .finalizeLoad ∨ label = .finalizeLocked)
    (taken : queue.step label = some next) :
    next.producer = queue.producer ∨ next.producer = queue.producer.signal := by
  rcases outside with inside | rfl | rfl
  · by_cases commit : label = .popCommit
    · subst commit
      obtain ⟨slot, content, _, rfl⟩ := pop_commit_cases taken
      exact Or.inr rfl
    · obtain ⟨point, rfl⟩ := pop_moves inside commit taken
      exact Or.inl rfl
  · obtain ⟨_, rfl⟩ | ⟨_, rfl⟩ := finalize_load_cases taken <;> exact Or.inl rfl
  · obtain ⟨_, rfl⟩ := finalize_locked_cases taken
    exact Or.inr rfl

/-- A step of the consumer or of `jp_queue_finalize` leaves the producer inside of its
call, or outside of it, as it was: at most it is signalled. -/
theorem signalled_between {queue next : Queue (List Byte)} {label : QueueLabel (List Byte)}
    (outside : label.inPop = true ∨ label = .finalizeLoad ∨ label = .finalizeLocked)
    (taken : queue.step label = some next) : next.producer.between = queue.producer.between := by
  rcases producer_signalled outside taken with same | woken
  · rw [same]
  · rw [woken, signal_between]

/-- The producer is in its call only where the reader makes it. -/
def Pipeline.Calling (state : Pipeline) : Prop :=
  state.reader.point = .reserve ∨ state.queue.producer.between = true

/-- A read is made where the reader reads. -/
theorem read_standing {chunkSize : Nat} {reader next : Reader} {result : ReadResult}
    (taken : reader.step chunkSize (.read result) = some next) : reader.point = .read := by
  cases step_reads taken <;> assumption

/-- A step that leaves the producer in its call or out of it, and does not take the
reader from its reservation. -/
theorem kept_calling {state next : Pipeline} (calling : state.Calling)
    (between : next.queue.producer.between = state.queue.producer.between)
    (point : next.reader.point = state.reader.point ∨ state.reader.point ≠ .reserve) :
    next.Calling := by
  rcases point with same | elsewhere
  · exact calling.imp same.trans between.trans
  · exact Or.inr (between.trans (calling.resolve_left elsewhere))

/-- After `jp_queue_finalize` the producer is where it was. -/
theorem leaves_calling {chunkSize : Nat} {state next : Pipeline} {party : Party}
    (calling : state.Calling) (leaves : Leaves chunkSize state party next) : next.Calling := by
  cases leaves with
  | reader reader taken =>
    obtain ⟨standing, _⟩ := finalized_step taken
    exact kept_calling calling rfl (Or.inr (by simp [standing]))
  | writer => exact kept_calling calling rfl (Or.inl rfl)
  | watcher => exact calling

/-- Every step of any thread keeps the producer's call where the reader makes it. -/
theorem step_calling {chunkSize : Nat} {state next : Pipeline} {label : PipelineLabel}
    (calling : state.Calling) (taken : state.step chunkSize label = some next) : next.Calling := by
  have signalled {queue : Queue (List Byte)} {label : QueueLabel (List Byte)}
      {writer : WriterPoint} {calls : Party → Nat}
      (outside : label.inPop = true ∨ label = .finalizeLoad ∨ label = .finalizeLocked)
      (stepped : state.queue.step label = some queue) :
      Pipeline.Calling { state with queue := queue, writer := writer, finalizing := calls } :=
    kept_calling calling (signalled_between outside stepped) (Or.inl rfl)
  cases step_moves taken with
  | called event reader quiet _ goes =>
    exact kept_calling calling rfl (Or.inr (quiet_unreserved quiet goes))
  | discarded bytes reader _ goes _ =>
    exact kept_calling calling rfl (Or.inr (by simp [read_standing goes]))
  | stored bytes content reader queue _ goes _ filled =>
    rcases fill_cases filled with ⟨slot, _, rfl⟩
    exact kept_calling calling rfl (Or.inr (by simp [read_standing goes]))
  | pushing label queue standing _ _ _ => exact Or.inl standing
  | refused label queue answer reader _ _ _ answered _ =>
    exact Or.inr (by simp [answered, ProducerPoint.between])
  | reserved label queue cleared slot reader _ _ _ holds clears _ =>
    rcases fill_cases clears with ⟨other, _, rfl⟩
    exact Or.inr (by simp [holds, ProducerPoint.between])
  | committed queue reader stepped _ =>
    rcases push_commit_cases stepped with ⟨slot, _, rfl⟩
    exact Or.inr rfl
  | popped label queue _ inside stepped => exact signalled (Or.inl inside) stepped
  | writeFailed _ => exact kept_calling calling rfl (Or.inl rfl)
  | entered party queue _ _ stepped => exact signalled (Or.inr (Or.inl rfl)) stepped
  | found party queue _ _ _ stepped leaves =>
    exact leaves_calling (signalled (Or.inr (Or.inl rfl)) stepped) leaves
  | finalized party queue _ _ _ stepped leaves =>
    exact leaves_calling (signalled (Or.inr (Or.inr rfl)) stepped) leaves

end JPipe
