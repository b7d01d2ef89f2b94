import JPipe.Engine
import JPipe.Pairing
import JPipe.Payloads
import JPipe.Shutdown
import Mathlib.Data.List.Basic

/-!
# The engine writes what the writer writes

The blocks the writer has taken are those popped and the one it reads. At every
moment the payloads written, the carried bytes and the unread rest of the block
are a stage of the cutting of these blocks, so the turns, taken in place and
interleaved with the steps of the other threads, do what `jp_writer_produce`
does with the blocks as a list: when the writer has left its loop, its records,
the descriptor's side and its status are those of the run over the blocks taken.
-/

namespace JPipe

section Reading

variable {β : Type}

/-- A signal changes nothing of what is read. -/
theorem signal_read (point : ConsumerPoint β) : point.signal.read = point.read := by
  cases point <;> rfl

/-- Only the consumer begins to read a block, and only its commit ends it. -/
theorem queue_read_kept {queue next : Queue β} {label : QueueLabel β} (noRead : label ≠ .popRead)
    (noPop : label ≠ .popCommit) (taken : queue.step label = some next) :
    next.consumer.read = queue.consumer.read := by
  cases label with
  | pushLoadActive | pushLoadLength | pushLocked | wakeProducer =>
    obtain ⟨point, rfl⟩ := push_moves rfl taken
    rfl
  | fill content =>
    obtain ⟨slot, _, rfl⟩ := fill_cases taken
    rfl
  | pushCommit =>
    obtain ⟨slot, _, rfl⟩ := push_commit_cases taken
    exact signal_read queue.consumer
  | popLoadLength =>
    obtain ⟨⟨answer, point⟩, ⟨_, rfl⟩ | ⟨_, rfl⟩⟩ := pop_load_length_cases taken <;>
      simp [ConsumerPoint.read, point]
  | popLocked =>
    obtain ⟨entering, moved⟩ := pop_locked_cases taken
    have unread : queue.consumer.read = none := by
      cases point : queue.consumer <;> simp_all [ConsumerPoint.read, ConsumerPoint.entering]
    rw [unread]
    obtain ⟨_, _, rfl⟩ | ⟨_, _, rfl⟩ | ⟨_, rfl⟩ := moved <;> rfl
  | wakeConsumer =>
    obtain ⟨point, rfl⟩ := wake_consumer_cases taken
    simp [ConsumerPoint.read, point]
  | popRead => exact absurd rfl noRead
  | popCommit => exact absurd rfl noPop
  | finalizeLoad =>
    obtain ⟨_, rfl⟩ | ⟨_, rfl⟩ := finalize_load_cases taken <;> rfl
  | finalizeLocked =>
    obtain ⟨_, rfl⟩ := finalize_locked_cases taken
    exact signal_read queue.consumer

end Reading

/-- A step of the threads that neither begins to read a block nor gives one back
leaves the blocks taken. -/
theorem step_read_kept {chunkSize : Nat} {state next : Pipeline} {label : PipelineLabel}
    (noRead : label ≠ .pop .popRead) (noPop : label ≠ .pop .popCommit)
    (taken : state.step chunkSize label = some next) :
    next.queue.consumer.read = state.queue.consumer.read ∧
      next.queue.popped = state.queue.popped := by
  have single {queue : Queue (List Byte)} {step : QueueLabel (List Byte)}
      (other : step ≠ .popRead) (uncommitted : step ≠ .popCommit)
      (stepped : state.queue.step step = some queue) :
      queue.consumer.read = state.queue.consumer.read ∧ queue.popped = state.queue.popped := by
    refine ⟨queue_read_kept other uncommitted stepped, ?_⟩
    by_cases inside : step.inPop = true
    · obtain ⟨point, rfl⟩ := pop_moves inside uncommitted stepped
      rfl
    · exact popped_kept (by simpa using inside) stepped
  have pushes {step : QueueLabel (List Byte)} (inside : step.inPush = true) :
      step ≠ .popRead ∧ step ≠ .popCommit := by
    constructor <;> rintro rfl <;> simp [QueueLabel.inPush] at inside
  cases step_moves taken with
  | called | discarded | writeFailed => exact ⟨rfl, rfl⟩
  | stored bytes content reader queue _ _ _ filled =>
    exact @single _ (.fill content) (by simp) (by simp) filled
  | pushing label queue _ inside stepped _ =>
    exact single (pushes inside).1 (pushes inside).2 stepped
  | refused label queue answer reader _ inside stepped _ _ =>
    exact single (pushes inside).1 (pushes inside).2 stepped
  | reserved label queue cleared slot reader _ inside stepped _ clears _ =>
    obtain ⟨other, _, rfl⟩ := fill_cases clears
    have kept := single (pushes inside).1 (pushes inside).2 stepped
    exact kept
  | committed queue reader stepped _ =>
    exact @single _ (.pushCommit) (by simp) (by simp) stepped
  | popped label queue _ inside stepped =>
    refine single ?_ ?_ stepped
    · rintro rfl
      exact noRead rfl
    · rintro rfl
      exact noPop rfl
  | entered party queue _ _ stepped =>
    exact @single _ (.finalizeLoad) (by simp) (by simp) stepped
  | found party queue _ _ _ stepped leaves =>
    rw [leaves_queue leaves]
    exact @single _ (.finalizeLoad) (by simp) (by simp) stepped
  | finalized party queue _ _ _ stepped leaves =>
    rw [leaves_queue leaves]
    exact @single _ (.finalizeLocked) (by simp) (by simp) stepped

/-- Short of a failing write the writer leaves its loop with the queue's last answer. -/
theorem step_answered {chunkSize : Nat} {state next : Pipeline} {label : PipelineLabel}
    (running : state.writer = .running) (left : next.writer ≠ .running)
    (unfailed : label ≠ .writeFailed) (taken : state.step chunkSize label = some next) :
    next.queue.consumer = .outside .eshuttingDown := by
  have away {other : Pipeline} {party : Party} (leaves : Leaves chunkSize other party next)
      (stands : state.finalizes party = true) (same : other.writer = state.writer) : False := by
    cases leaves with
    | reader reader goes => exact left (same.trans running)
    | writer => simp [Pipeline.finalizes, running] at stands
    | watcher => exact left (same.trans running)
  cases step_moves taken with
  | popped label queue _ _ _ =>
    by_cases answered : queue.consumer = .outside .eshuttingDown
    · exact answered
    · simp [answered] at left
  | writeFailed _ => exact absurd rfl unfailed
  | found party queue _ stands _ _ leaves => exact (away leaves stands rfl).elim
  | finalized party queue _ stands _ _ leaves => exact (away leaves stands rfl).elim
  | _ => exact absurd running left

/-- What a turn of the writer's inner loop leaves of its block is an end of what it found
there. -/
theorem inner_turn_suffix (chunkSize : Nat) (overflow rest : List Byte) :
    (innerTurn chunkSize overflow rest).rest <:+ rest := by
  unfold innerTurn
  simp only
  split
  · split
    · split
      · exact (List.drop_suffix _ _).trans (List.drop_suffix _ _)
      · exact List.drop_suffix _ _
    · exact List.drop_suffix _ _
  · split
    · exact List.nil_suffix
    · exact List.drop_suffix _ _

/-- One more block is cut after those before it. -/
theorem feed_block {cap : Nat} {blocks done : List (List Byte)} {held : List Byte}
    (before : Cutting.feed cap newline [] (Cutting.markBlocks cap blocks) = (done, held))
    (block : List Byte) :
    Cutting.feed cap newline [] (Cutting.markBlocks cap (blocks ++ [block])) =
      (done ++ (Cutting.feed cap newline held (Cutting.markLast (block.length < cap) block)).1,
        (Cutting.feed cap newline held (Cutting.markLast (block.length < cap) block)).2) := by
  have parts : Cutting.markBlocks cap (blocks ++ [block]) =
      Cutting.markBlocks cap blocks ++ Cutting.markLast (block.length < cap) block := by
    simp [Cutting.markBlocks]
  rw [parts, Cutting.feed_append, before]

section Stages

variable {σ : Type} {ctx : WriterCtx} {emit : σ → List Byte → Option (σ × Errno)}

/-- The blocks the writer has taken: those popped and the one it reads. -/
def Engine.taken (engine : Engine σ) : List (List Byte) :=
  engine.threads.queue.popped ++ (engine.threads.queue.consumer.read.map Prod.snd).toList

/-- The block being read is shorter than a chunk. -/
def Engine.short (chunkSize : Nat) (engine : Engine σ) : Bool :=
  engine.threads.queue.consumer.read.any fun (_, content) => content.length < chunkSize

/-- The writer has written every record so far: it is in its loop, or left it without
a block. -/
def Engine.Going (engine : Engine σ) : Prop :=
  engine.threads.writer = .running ∨ engine.threads.queue.consumer.read = none

/-- What is left to read of the block is what it was committed with, from `start_ptr`
on: the other threads do not write to it. -/
theorem unread_eq {engine : Engine σ} (consistent : Consistent engine.threads.queue) :
    engine.unread = ((engine.threads.queue.consumer.read.map Prod.snd).getD []).drop
      engine.startPtr := by
  unfold Engine.unread
  cases point : engine.threads.queue.consumer with
  | reading slot content =>
    obtain ⟨rfl, _, same⟩ := consistent.reading slot content point
    simp [ConsumerPoint.read, ← same]
  | _ => simp [ConsumerPoint.read]

/-- The blocks committed are those the writer has taken and those behind them in the
ring. -/
theorem taken_pending {queue : Queue (List Byte)} (consistent : Consistent queue) :
    queue.committed.map Prod.snd = queue.popped ++ (queue.consumer.read.map Prod.snd).toList ++
      (queue.pending.drop queue.consumer.read.toList.length).map Prod.snd := by
  obtain ⟨delivered, split, popped⟩ := consistent.history
  rw [split, List.map_append, popped, List.append_assoc]
  congr 1
  cases point : queue.consumer with
  | reading slot content =>
    obtain ⟨rfl, some, same⟩ := consistent.reading slot content point
    obtain ⟨length, counted⟩ : ∃ length, queue.length = length + 1 :=
      ⟨queue.length - 1, by omega⟩
    simp [ConsumerPoint.read, Queue.pending, counted, List.range_succ_eq_map,
      slot_at_zero consistent, same]
  | _ => simp [ConsumerPoint.read]

/-- The blocks taken are the first of those committed. -/
theorem taken_committed {engine : Engine σ} (consistent : Consistent engine.threads.queue) :
    engine.taken <+: engine.threads.queue.committed.map Prod.snd := by
  rw [taken_pending consistent]
  exact List.prefix_append _ _

/-- The blocks taken are such as the queue delivers. -/
theorem taken_fit {chunkSize : Nat} {stdin : List Byte} {engine : Engine σ}
    (paired : Paired chunkSize stdin engine.threads) : BlocksFit chunkSize engine.taken := by
  intro block member
  apply paired.accounted.sizes block
  rw [← paired.committed]
  exact (taken_committed paired.consistent).subset member

/-- A stage of the cutting of the blocks taken. -/
structure Feeding (ctx : WriterCtx) (emit : σ → List Byte → Option (σ × Errno)) (sink : σ)
    (engine : Engine σ) : Prop where
  carried : engine.writer.overflow.length ≤ ctx.chunkSize
  fresh : engine.writer.overflow ≠ [] → engine.unread ≠ [] → engine.startPtr = 0
  records : engine.writer.records = (payloads engine.writer).map (recordOf ctx)
  written : engine.Going →
    emitRecords emit sink engine.writer.records =
      some (engine.writer.records, engine.writer.sink, .ok)
  cut : engine.Going →
    Cutting.feed ctx.chunkSize newline [] (Cutting.markBlocks ctx.chunkSize engine.taken) =
      (payloads engine.writer ++ (Cutting.feed ctx.chunkSize newline engine.writer.overflow
          (Cutting.markLast (engine.short ctx.chunkSize) engine.unread)).1,
        (Cutting.feed ctx.chunkSize newline engine.writer.overflow
          (Cutting.markLast (engine.short ctx.chunkSize) engine.unread)).2)
  answered : engine.Going → engine.threads.writer ≠ .running → engine.err = .eshuttingDown
  failed : ¬ engine.Going → engine.err ≠ .ok ∧
    emitRecords emit sink engine.writer.records =
      some (engine.writer.records, engine.writer.sink, engine.err) ∧
    payloads engine.writer <+: (Cutting.feed ctx.chunkSize newline []
      (Cutting.markBlocks ctx.chunkSize engine.taken)).1

/-- Nothing is taken at the start. -/
theorem start_feeding (capacity : Nat) (policy : Policy) (blocks : Nat → List Byte)
    (stdin : List Byte) (sink : σ) :
    Feeding ctx emit sink (Engine.start capacity policy blocks stdin sink) where
  carried := Nat.zero_le _
  fresh := fun carrying => absurd rfl carrying
  records := rfl
  written := fun _ => rfl
  cut := fun _ => rfl
  answered := fun _ left => absurd rfl left
  failed := fun failing => absurd (Or.inl rfl) failing

/-- A step of the threads that takes no block and gives none back keeps the stage. -/
theorem kept_feeding {sink : σ} {engine next : Engine σ} {label : PipelineLabel}
    (consistent : Consistent engine.threads.queue) (after : Consistent next.threads.queue)
    (feeding : Feeding ctx emit sink engine) (noRead : label ≠ .pop .popRead)
    (noPop : label ≠ .pop .popCommit)
    (taken : engine.step ctx emit (.thread label) = some next) : Feeding ctx emit sink next := by
  obtain ⟨unfailed, _, stepped, startPtr, writer, err⟩ := thread_cases taken
  rw [if_neg noRead] at startPtr
  obtain ⟨read, popped⟩ := step_read_kept noRead noPop stepped
  have unread : next.unread = engine.unread := by
    rw [unread_eq after, unread_eq consistent, read, startPtr]
  have blocks : next.taken = engine.taken := by rw [Engine.taken, Engine.taken, read, popped]
  have short : next.short ctx.chunkSize = engine.short ctx.chunkSize := by
    rw [Engine.short, Engine.short, read]
  have leaves (running : engine.threads.writer = .running) (left : next.threads.writer ≠ .running) :
      next.threads.queue.consumer = .outside .eshuttingDown :=
    step_answered running left unfailed stepped
  have going : next.Going ↔ engine.Going := by
    rw [Engine.Going, Engine.Going, read]
    constructor
    · rintro (running | none)
      · exact Or.inl (by_contra fun left => (left_step left stepped).1 running)
      · exact Or.inr none
    · rintro (running | none)
      · by_cases still : next.threads.writer = .running
        · exact Or.inl still
        · right
          rw [← read, leaves running still]
          rfl
      · exact Or.inr none
  constructor
  · rw [writer]
    exact feeding.carried
  · rw [writer, unread, startPtr]
    exact feeding.fresh
  · rw [writer]
    exact feeding.records
  · rw [going, writer]
    exact feeding.written
  · rw [going, writer, blocks, short, unread]
    exact feeding.cut
  · intro stays left
    rw [err]
    split
    · rfl
    · rename_i other
      by_cases running : engine.threads.writer = .running
      · exact absurd (leaves running left) other
      · exact feeding.answered (going.mp stays) running
  · rw [going, writer, blocks]
    intro failing
    have reading : next.threads.queue.consumer ≠ .outside .eshuttingDown := by
      intro outside
      apply failing
      right
      rw [← read, outside]
      rfl
    rw [err, if_neg reading]
    exact feeding.failed failing

/-- A step of the writer as the consumer is one of the queue. -/
theorem pop_step {engine next : Engine σ} {label : QueueLabel (List Byte)}
    (taken : engine.step ctx emit (.thread (.pop label)) = some next) :
    engine.threads.writer = .running ∧
      engine.threads.queue.step label = some next.threads.queue ∧
      next.threads.writer = (if next.threads.queue.consumer = .outside .eshuttingDown
        then .cleanUp else .running) := by
  obtain ⟨_, _, stepped, _⟩ := thread_cases taken
  generalize next.threads = threads at stepped ⊢
  cases step_moves stepped with
  | popped _ queue running _ moved => exact ⟨running, moved, rfl⟩

/-- Taking up a block adds it to the blocks taken, all of it unread. -/
theorem read_feeding {sink : σ} {engine next : Engine σ}
    (after : Consistent next.threads.queue) (feeding : Feeding ctx emit sink engine)
    (taken : engine.step ctx emit (.thread (.pop .popRead)) = some next) :
    Feeding ctx emit sink next := by
  obtain ⟨_, _, _, startPtr, writer, _⟩ := thread_cases taken
  obtain ⟨running, moved, stays⟩ := pop_step taken
  obtain ⟨slot, point, queue⟩ := pop_read_cases moved
  have fresh : engine.threads.queue.consumer.read = none := by rw [point]; rfl
  have nothing : engine.unread = [] := by simp [Engine.unread, fresh]
  have goes : next.threads.writer = .running := by rw [stays, queue]; simp
  have unread : next.unread = engine.threads.queue.blocks slot := by
    rw [unread_eq after, startPtr, queue]
    simp [ConsumerPoint.read]
  have blocks : next.taken = engine.taken ++ [engine.threads.queue.blocks slot] := by
    rw [Engine.taken, Engine.taken, fresh, queue]
    simp [ConsumerPoint.read]
  have short : next.short ctx.chunkSize =
      decide ((engine.threads.queue.blocks slot).length < ctx.chunkSize) := by
    simp [Engine.short, queue, ConsumerPoint.read]
  have before := feeding.cut (Or.inl running)
  rw [nothing, Cutting.markLast, Cutting.feed, List.append_nil] at before
  constructor
  · rw [writer]
    exact feeding.carried
  · rw [startPtr]
    exact fun _ _ => rfl
  · rw [writer]
    exact feeding.records
  · rw [writer]
    exact fun _ => feeding.written (Or.inl running)
  · intro _
    rw [writer, blocks, short, unread]
    exact feed_block before _
  · exact fun _ left => absurd goes left
  · exact fun failing => absurd (Or.inl goes) failing

/-- Giving back a block that is used up leaves the blocks taken. -/
theorem commit_feeding {sink : σ} {engine next : Engine σ}
    (feeding : Feeding ctx emit sink engine)
    (taken : engine.step ctx emit (.thread (.pop .popCommit)) = some next) :
    Feeding ctx emit sink next := by
  obtain ⟨_, used, _, _, writer, _⟩ := thread_cases taken
  have nothing : engine.unread = [] := used rfl
  obtain ⟨running, moved, stays⟩ := pop_step taken
  obtain ⟨slot, content, point, queue⟩ := pop_commit_cases moved
  have goes : next.threads.writer = .running := by rw [stays, queue]; simp
  have unread : next.unread = [] := by simp [Engine.unread, queue, ConsumerPoint.read]
  have blocks : next.taken = engine.taken := by
    simp [Engine.taken, queue, point, ConsumerPoint.read]
  have before := feeding.cut (Or.inl running)
  rw [nothing, Cutting.markLast, Cutting.feed, List.append_nil] at before
  constructor
  · rw [writer]
    exact feeding.carried
  · rw [unread]
    exact fun _ some => absurd rfl some
  · rw [writer]
    exact feeding.records
  · rw [writer]
    exact fun _ => feeding.written (Or.inl running)
  · intro _
    rw [writer, blocks, unread, before, Cutting.markLast, Cutting.feed, List.append_nil]
  · exact fun _ left => absurd goes left
  · exact fun failing => absurd (Or.inl goes) failing

/-- What a turn owes to the cutting, at the stage where it is taken. -/
theorem turn_stage {stdin : List Byte} {sink : σ} {engine : Engine σ}
    (positive : 0 < ctx.chunkSize) (paired : Paired ctx.chunkSize stdin engine.threads)
    (feeding : Feeding ctx emit sink engine) (unread : engine.unread ≠ []) :
    TurnRefines ctx.chunkSize (engine.short ctx.chunkSize) engine.writer.overflow engine.unread
      (innerTurn ctx.chunkSize engine.writer.overflow engine.unread) := by
  obtain ⟨slot, content, point⟩ := unread_reading unread
  have left := unread_eq paired.consistent
  rw [point] at left
  simp only [ConsumerPoint.read, Option.map_some, Option.getD_some] at left
  have short : engine.short ctx.chunkSize = decide (content.length < ctx.chunkSize) := by
    simp [Engine.short, point, ConsumerPoint.read]
  have bounded : content.length ≤ ctx.chunkSize := by
    refine (taken_fit paired content ?_).2
    simp [Engine.taken, point, ConsumerPoint.read]
  by_cases fresh : engine.writer.overflow = []
  · rw [fresh]
    apply turn_in_place positive _ _ unread
    · rw [left, List.length_drop]
      omega
    · rw [left, List.length_drop, short]
      intro whole
      simp only [decide_eq_false_iff_not]
      omega
  · apply turn_carried positive _ _ _ fresh unread feeding.carried
    have front : engine.startPtr = 0 := feeding.fresh fresh unread
    rw [left, front, List.drop_zero, short]
    exact decide_eq_true

/-- After a turn the rest of the block is what the turn left of it. -/
theorem turn_unread {engine : Engine σ} (next : Engine σ)
    (consistent : Consistent engine.threads.queue) (same : next.threads = engine.threads)
    (moved : next.startPtr = engine.startPtr + (engine.unread.length -
      (innerTurn ctx.chunkSize engine.writer.overflow engine.unread).rest.length)) :
    next.unread = (innerTurn ctx.chunkSize engine.writer.overflow engine.unread).rest := by
  have after : Consistent next.threads.queue := same ▸ consistent
  rw [unread_eq after, same, moved, ← List.drop_drop, ← unread_eq consistent]
  exact (List.suffix_iff_eq_drop.mp (inner_turn_suffix _ _ _)).symm

/-- One more record is handed over after those before it. -/
theorem emit_records_last {sink middle final : σ} {records : List Record} {record : Record}
    {err : Errno} (before : emitRecords emit sink records = some (records, middle, .ok))
    (emitted : emit middle record.encoded = some (final, err)) :
    emitRecords emit sink (records ++ [record]) = some (records ++ [record], final, err) := by
  rw [emit_records_append, before]
  by_cases succeeded : err = .ok <;> simp [emitRecords, emitted, succeeded]

/-- A record more is a payload more. -/
theorem payloads_concat (writer : Writer σ) (payload overflow : List Byte) (sink : σ) :
    payloads (⟨overflow, writer.records ++ [recordOf ctx payload], sink⟩ : Writer σ) =
      payloads writer ++ [payload] := by
  simp [payloads, recordOf]

/-- A turn leads from one stage of the cutting to the next. -/
theorem turn_feeding {stdin : List Byte} {sink : σ} {engine next : Engine σ}
    (positive : 0 < ctx.chunkSize) (paired : Paired ctx.chunkSize stdin engine.threads)
    (feeding : Feeding ctx emit sink engine)
    (taken : engine.step ctx emit .turn = some next) : Feeding ctx emit sink next := by
  cases turn_cases taken with
  | carried turn running unread made silent =>
    have refined := turn_stage positive paired feeding unread
    have rest := turn_unread { engine with
      startPtr := engine.startPtr + (engine.unread.length - turn.rest.length)
      writer := { engine.writer with overflow := turn.overflow } } paired.consistent rfl
      (by rw [made])
    rw [← made] at refined rest
    have before := feeding.cut (Or.inl running)
    rw [refined.cut, silent, Option.toList_none, List.nil_append] at before
    constructor
    · exact refined.carried
    · intro carrying more
      exact absurd (refined.apart.resolve_left carrying) (rest ▸ more)
    · exact feeding.records
    · exact fun _ => feeding.written (Or.inl running)
    · intro _
      rw [rest]
      exact before
    · exact fun _ left => absurd running left
    · exact fun failing => absurd (Or.inl running) failing
  | wrote turn payload sink running unread made cut emitted =>
    have refined := turn_stage positive paired feeding unread
    have rest := turn_unread { engine with
      startPtr := engine.startPtr + (engine.unread.length - turn.rest.length)
      writer := {
        overflow := turn.overflow
        records := engine.writer.records ++ [recordOf ctx payload]
        sink := sink } } paired.consistent rfl (by rw [made])
    rw [← made] at refined rest
    have before := feeding.cut (Or.inl running)
    rw [refined.cut, cut, Option.toList_some, ← List.append_assoc] at before
    constructor
    · exact refined.carried
    · intro carrying more
      exact absurd (refined.apart.resolve_left carrying) (rest ▸ more)
    · rw [payloads_concat, List.map_append, ← feeding.records, List.map_singleton]
    · exact fun _ => emit_records_last (feeding.written (Or.inl running)) emitted
    · intro _
      rw [rest, payloads_concat]
      exact before
    · exact fun _ left => absurd running left
    · exact fun failing => absurd (Or.inl running) failing
  | failed turn payload sink err running unread made cut emitted failing =>
    have refined := turn_stage positive paired feeding unread
    rw [← made] at refined
    have before := feeding.cut (Or.inl running)
    rw [refined.cut, cut, Option.toList_some, ← List.append_assoc] at before
    obtain ⟨slot, content, point⟩ := unread_reading unread
    have stopped : ¬ Engine.Going { engine with
        threads := { engine.threads with writer := .cleanUp }
        writer := {
          overflow := engine.writer.overflow
          records := engine.writer.records ++ [recordOf ctx payload]
          sink := sink }
        err := err } := by simp [Engine.Going, point, ConsumerPoint.read]
    constructor
    · exact feeding.carried
    · exact feeding.fresh
    · rw [payloads_concat, List.map_append, ← feeding.records, List.map_singleton]
    · exact fun going => absurd going stopped
    · exact fun going => absurd going stopped
    · exact fun going => absurd going stopped
    · intro _
      refine ⟨failing, emit_records_last (feeding.written (Or.inl running)) emitted, ?_⟩
      rw [payloads_concat]
      change _ <+: (Cutting.feed ctx.chunkSize newline []
        (Cutting.markBlocks ctx.chunkSize engine.taken)).1
      rw [before]
      exact List.prefix_append _ _

/-- Every step of the engine keeps the agreement of its threads and leads from one
stage of the cutting to the next. -/
theorem engine_step_feeding {stdin : List Byte} {sink : σ} {engine next : Engine σ}
    {label : EngineLabel} (positive : 0 < ctx.chunkSize)
    (both : Paired ctx.chunkSize stdin engine.threads ∧ Feeding ctx emit sink engine)
    (taken : engine.step ctx emit label = some next) :
    Paired ctx.chunkSize stdin next.threads ∧ Feeding ctx emit sink next := by
  obtain ⟨paired, feeding⟩ := both
  have after : Paired ctx.chunkSize stdin next.threads :=
    engine_keeps (fun _ _ _ => step_paired positive) paired taken
  refine ⟨after, ?_⟩
  cases label with
  | turn => exact turn_feeding positive paired feeding taken
  | thread label =>
    by_cases reads : label = .pop .popRead
    · subst reads
      exact read_feeding after.consistent feeding taken
    · by_cases commits : label = .pop .popCommit
      · subst commits
        exact commit_feeding feeding taken
      · exact kept_feeding paired.consistent after.consistent feeding reads commits taken

/-- Every run of the engine is at a stage of the cutting. -/
theorem engine_run_feeding {capacity : Nat} (capacityPositive : 0 < capacity)
    (chunkPositive : 0 < ctx.chunkSize) (policy : Policy) (blocks : Nat → List Byte)
    (stdin : List Byte) (sink : σ) {schedule : List EngineLabel} {final : Engine σ}
    (completed : Schedules.run (Engine.step ctx emit)
      (Engine.start capacity policy blocks stdin sink) schedule = some final) :
    Paired ctx.chunkSize stdin final.threads ∧ Feeding ctx emit sink final :=
  Schedules.run_invariant (fun _ _ _ => engine_step_feeding chunkPositive)
    ⟨start_paired capacityPositive policy ctx.chunkSize blocks stdin,
      start_feeding capacity policy blocks stdin sink⟩ completed

/-- What `jp_writer_produce` returns: an expected answer of the queue is no error. -/
def Engine.status (engine : Engine σ) : Errno :=
  if jpQueueIsGracefulErr engine.err then .ok else engine.err

/-- A writer that left its loop with every record written has read the blocks it took
to the end, and reports no error. -/
theorem left_going {sink : σ} {engine : Engine σ} (feeding : Feeding ctx emit sink engine)
    (going : engine.Going) (left : engine.threads.writer ≠ .running) :
    engine.taken = engine.threads.queue.popped ∧ engine.status = .ok ∧
      Cutting.feed ctx.chunkSize newline [] (Cutting.markBlocks ctx.chunkSize engine.taken) =
        (payloads engine.writer, engine.writer.overflow) := by
  have unread : engine.threads.queue.consumer.read = none := going.resolve_left left
  have nothing : engine.unread = [] := by simp [Engine.unread, unread]
  have cut := feeding.cut going
  rw [nothing, Cutting.markLast, Cutting.feed, List.append_nil] at cut
  refine ⟨?_, ?_, cut⟩
  · rw [Engine.taken, unread]
    simp
  · rw [Engine.status, feeding.answered going left]
    simp [jpQueueIsGracefulErr]

/-- In every run, however the threads are interleaved, when the writer has left its
loop its records, the descriptor's side and its status are those of
`jp_writer_produce` over the blocks it took. -/
theorem engine_refines_writer {capacity : Nat} (capacityPositive : 0 < capacity)
    (chunkPositive : 0 < ctx.chunkSize) (policy : Policy) (blocks : Nat → List Byte)
    (stdin : List Byte) (sink : σ) (schedule : List EngineLabel) (final : Engine σ)
    (completed : Schedules.run (Engine.step ctx emit)
      (Engine.start capacity policy blocks stdin sink) schedule = some final)
    (left : final.threads.writer ≠ .running) :
    (jpWriterProduce ctx emit sink final.taken).map outcome =
      some (final.writer.records, final.writer.sink, final.status) := by
  obtain ⟨paired, feeding⟩ := engine_run_feeding capacityPositive chunkPositive policy blocks
    stdin sink completed
  rw [writer_refines_cutting ctx emit sink final.taken (taken_fit paired), recordsOf]
  by_cases going : final.Going
  · obtain ⟨_, succeeded, cut⟩ := left_going feeding going left
    rw [cut, ← feeding.records, feeding.written going, succeeded]
    rfl
  · obtain ⟨failing, written, more, split⟩ := feeding.failed going
    rw [← split, List.map_append, ← feeding.records, emit_records_append, written]
    simp [failing, Engine.status]

/-- The line `a` on its way: the end of the input is read before the writer takes the
block up, and the writer returns last. -/
def oneLine : List EngineLabel :=
  [.thread (.call (.created .ok)), .thread (.call (.registered .ok)),
    .thread (.call (.waited .ok)), .thread (.push .pushLoadActive),
    .thread (.push .pushLoadLength), .thread (.call (.read (.data [0x61, newline]))),
    .thread (.call (.read .eof)), .thread .commit, .thread (.pop .popLoadLength),
    .thread (.pop .popRead), .turn, .thread (.finalizeLoad .reader),
    .thread (.finalizeLocked .reader), .thread (.pop .popCommit), .thread (.pop .popLoadLength),
    .thread (.pop .popLocked), .thread (.finalizeLoad .writer)]

/-- The writer of `a` made the record that it makes of the block alone. -/
theorem one_line_refines :
    ∃ final, Schedules.run (Engine.step (bareWriter 4) takeAll)
        (Engine.start 1 .wait (fun _ => []) [0x61, newline] ()) oneLine = some final ∧
      (jpWriterProduce (bareWriter 4) takeAll () final.taken).map outcome =
        some (final.writer.records, final.writer.sink, final.status) := by
  have ran : (Schedules.run (Engine.step (bareWriter 4) takeAll)
      (Engine.start 1 .wait (fun _ => []) [0x61, newline] ()) oneLine).map
        (fun final => final.threads.writer) = some .returned := by decide
  obtain ⟨final, completed, left⟩ := Option.map_eq_some_iff.mp ran
  exact ⟨final, completed, engine_refines_writer Nat.one_pos (by decide) .wait (fun _ => [])
    [0x61, newline] () oneLine final completed (by simp [left])⟩

end Stages

end JPipe
