import JPipe.Contiguity
import JPipe.Escaping
import JPipe.Feeding
import JPipe.Shutdown
import Mathlib.Data.List.Basic

/-!
# The lines on their way through the engine

What the records are to the input, at every moment of every run: signals,
failing calls and failing writes included. The bytes of the records in their
order are among the bytes of the input in its order, under both policies. Under
the waiting policy nothing is missing between them either: the records are the
first lines of the input, and what has been read beyond them is in the
overflow or in the queue.
-/

namespace JPipe

/-! ### What the reader commits -/

/-- What is not dropped keeps the order in which it was read. -/
theorem kept_sublist {chunkSize : Nat} {reader : Reader} (accounted : Accounted chunkSize reader) :
    (reader.committed.flatten ++ reader.held).Sublist reader.bytesRead := by
  have parts (log : List Fate) : (Reader.committed { reader with log := log }).flatten.Sublist
      (log.flatMap Fate.bytes) := by
    induction log with
    | nil => exact List.Sublist.refl _
    | cons fate rest ih =>
      cases fate with
      | committed bytes => simpa [Reader.committed, Fate.bytes] using ih
      | discarded bytes =>
        simpa [Reader.committed, Fate.bytes] using ih.trans (List.sublist_append_right bytes _)
  rw [accounted.bytes]
  exact (parts reader.log).append_right _

/-- The blocks committed are bytes of the input, in order. -/
theorem committed_sublist {chunkSize : Nat} {stdin : List Byte} {state : Pipeline}
    (paired : Paired chunkSize stdin state) : state.reader.committed.flatten.Sublist stdin := by
  have kept := kept_sublist paired.accounted
  rw [← paired.input]
  exact ((List.sublist_append_left _ _).trans kept).trans (List.sublist_append_left _ _)

/-- Under the waiting policy no step of any thread discards anything. -/
theorem step_keeping {chunkSize : Nat} (positive : 0 < chunkSize) {state next : Pipeline}
    {label : PipelineLabel}
    (keeping : state.queue.policy = .wait ∧ ∃ past, Filling chunkSize past state.reader)
    (taken : state.step chunkSize label = some next) :
    next.queue.policy = .wait ∧ ∃ past, Filling chunkSize past next.reader := by
  obtain ⟨waits, past, filling⟩ := keeping
  refine ⟨step_keeps (fun _ _ _ => step_policy) waits taken, ?_⟩
  rcases step_reader taken with same | ⟨event, goes, gives⟩
  · exact ⟨past, same ▸ filling⟩
  · refine ⟨past ++ [event], step_filling positive filling ?_ goes⟩
    cases event with
    | pushed answer => simpa [Pipeline.Gives, WaitAnswer, waits] using gives
    | _ => trivial

/-- While nothing is discarded the blocks committed are the start of the input. -/
theorem committed_start {chunkSize : Nat} {stdin : List Byte} {state : Pipeline}
    (paired : Paired chunkSize stdin state) {past : List ReaderEvent}
    (filling : Filling chunkSize past state.reader) :
    state.reader.committed.flatten <+: stdin := by
  have kept : state.reader.log.flatMap Fate.bytes = state.reader.committed.flatten := by
    rw [filling.kept, List.flatMap_map]
    exact List.flatMap_id'
  rw [← paired.input, paired.accounted.bytes, kept, List.append_assoc]
  exact List.prefix_append _ _

section Runs

variable {σ : Type} {ctx : WriterCtx} {emit : σ → List Byte → Option (σ × Errno)}

/-- The payloads written are the first pieces of the blocks taken. -/
theorem payloads_first {sink : σ} {engine : Engine σ} (feeding : Feeding ctx emit sink engine) :
    payloads engine.writer <+: (Cutting.feed ctx.chunkSize newline []
      (Cutting.markBlocks ctx.chunkSize engine.taken)).1 := by
  by_cases going : engine.Going
  · rw [feeding.cut going]
    exact List.prefix_append _ _
  · exact (feeding.failed going).2.2

/-- The blocks taken are the start of the blocks committed, as bytes. -/
theorem taken_flatten {chunkSize : Nat} {stdin : List Byte} {engine : Engine σ}
    (paired : Paired chunkSize stdin engine.threads) :
    engine.taken.flatten <+: engine.threads.reader.committed.flatten := by
  obtain ⟨rest, split⟩ := taken_committed paired.consistent
  rw [← paired.committed, ← split, List.flatten_append]
  exact List.prefix_append _ _

/-- The pieces of any blocks are their bytes without the newlines, up to what is
held. -/
theorem pieces_flatten (cap : Nat) (blocks : List (List Byte)) :
    (Cutting.feed cap newline [] (Cutting.markBlocks cap blocks)).1.flatten <+:
      blocks.flatten.filter (· ≠ newline) := by
  have conserved := Cutting.feed_conserves cap newline [] (Cutting.markBlocks cap blocks)
  rw [Cutting.mark_blocks_items, List.nil_append] at conserved
  rw [← conserved]
  exact List.prefix_append _ _

/-- In every run, under either policy and whatever fails, no byte is made up, written
twice or moved before another: the payloads written so far, in order, are among the
bytes of the input, and none contains a newline. -/
theorem payloads_in_order {capacity : Nat} (capacityPositive : 0 < capacity)
    (chunkPositive : 0 < ctx.chunkSize) (policy : Policy) (blocks : Nat → List Byte)
    (stdin : List Byte) (sink : σ) (schedule : List EngineLabel) (final : Engine σ)
    (completed : Schedules.run (Engine.step ctx emit)
      (Engine.start capacity policy blocks stdin sink) schedule = some final) :
    (payloads final.writer).flatten.Sublist (stdin.filter (· ≠ newline)) := by
  obtain ⟨paired, feeding⟩ := engine_run_feeding capacityPositive chunkPositive policy blocks
    stdin sink completed
  obtain ⟨more, split⟩ := payloads_first feeding
  have first : (payloads final.writer).flatten <+: (Cutting.feed ctx.chunkSize newline []
      (Cutting.markBlocks ctx.chunkSize final.taken)).1.flatten := by
    rw [← split, List.flatten_append]
    exact List.prefix_append _ _
  have taken : final.taken.flatten.Sublist stdin :=
    (taken_flatten paired).sublist.trans (committed_sublist paired)
  exact (first.trans (pieces_flatten _ _)).sublist.trans (taken.filter _)

/-- The second line is dropped: the ring of one slot holds the first. -/
def droppedLine : List EngineLabel :=
  [.thread (.call (.created .ok)), .thread (.call (.registered .ok)),
    .thread (.call (.waited .ok)), .thread (.push .pushLoadActive),
    .thread (.push .pushLoadLength), .thread (.call (.read (.data [0x61, newline]))),
    .thread .commit, .thread (.push .pushLoadActive), .thread (.push .pushLoadLength),
    .thread (.push .pushLocked), .thread (.call (.read (.data [0x62, newline]))),
    .thread (.pop .popLoadLength), .thread (.pop .popRead), .turn]

/-- The payload written is the first line of the two. -/
theorem dropped_line_in_order :
    ∃ final, Schedules.run (Engine.step (bareWriter 2) takeAll)
        (Engine.start 1 .drop (fun _ => []) [0x61, newline, 0x62, newline] ()) droppedLine =
          some final ∧
      (payloads final.writer).flatten.Sublist [0x61, 0x62] := by
  have ran : (Schedules.run (Engine.step (bareWriter 2) takeAll)
      (Engine.start 1 .drop (fun _ => []) [0x61, newline, 0x62, newline] ()) droppedLine).isSome =
        true := by decide
  obtain ⟨final, completed⟩ := Option.isSome_iff_exists.mp ran
  exact ⟨final, completed, payloads_in_order Nat.one_pos (by decide) .drop (fun _ => [])
    [0x61, newline, 0x62, newline] () droppedLine final completed⟩

/-- Under the waiting policy the blocks taken are the start of the input, in every
run. -/
theorem waiting_taken {capacity : Nat} (capacityPositive : 0 < capacity)
    (chunkPositive : 0 < ctx.chunkSize) (blocks : Nat → List Byte) (stdin : List Byte) (sink : σ)
    {schedule : List EngineLabel} {final : Engine σ}
    (completed : Schedules.run (Engine.step ctx emit)
      (Engine.start capacity .wait blocks stdin sink) schedule = some final) :
    final.taken.flatten <+: stdin := by
  obtain ⟨paired, _⟩ := engine_run_feeding capacityPositive chunkPositive .wait blocks stdin sink
    completed
  have start : (Engine.start capacity .wait blocks stdin sink).threads.queue.policy = .wait ∧
      ∃ past, Filling ctx.chunkSize past
        (Engine.start capacity .wait blocks stdin sink).threads.reader :=
    ⟨rfl, [], start_filling ctx.chunkSize⟩
  obtain ⟨_, past, filling⟩ := Schedules.run_invariant
    (fun _ _ _ => engine_keeps fun _ _ _ => step_keeping chunkPositive) start completed
  exact (taken_flatten paired).trans (committed_start paired filling)

/-- Lines shorter than the capacity are the first pieces of every start of their
stream. -/
theorem pieces_of_lines {cap : Nat} {lines blocks : List (List Byte)} {rest : List Byte}
    (plain : ∀ line ∈ lines, newline ∉ line) (short : ∀ line ∈ lines, line.length < cap)
    (start : blocks.flatten ++ rest = lines.flatMap (fun line => line ++ [newline])) :
    (Cutting.feed cap newline [] (Cutting.markBlocks cap blocks)).1 <+: lines := by
  have stream : (Cutting.markBlocks cap blocks ++ rest.map fun item => (item, false)).map
      Prod.fst = lines.flatMap (fun line => line ++ [newline]) := by
    rw [List.map_append, Cutting.mark_blocks_items, ← start]
    simp [Function.comp_def]
  have whole := Cutting.feed_short_lines newline lines plain short _ stream
  rw [Cutting.feed_append] at whole
  exact ⟨_, congrArg Prod.fst whole⟩

/-- In every run under the waiting policy, whatever fails and whenever a signal
arrives, the payloads written so far are the first lines of the input, and each
record's value reads back as its line. -/
theorem lines_in_order {capacity chunkSize : Nat} {fields : FieldSet}
    (capacityPositive : 0 < capacity) (chunkPositive : 0 < chunkSize)
    (blocks : Nat → List Byte) (lines : List (List Byte)) (sink : σ)
    (plain : ∀ line ∈ lines, newline ∉ line) (short : ∀ line ∈ lines, line.length < chunkSize)
    (schedule : List EngineLabel) (final : Engine σ)
    (completed : Schedules.run (Engine.step ⟨chunkSize, fields, jpEncoderJson⟩ emit)
      (Engine.start capacity .wait blocks (lines.flatMap fun line => line ++ [newline]) sink)
      schedule = some final) :
    payloads final.writer <+: lines ∧
      final.writer.records.map (fun record => JsonText.unescape record.encoded) =
        (payloads final.writer).map some := by
  obtain ⟨_, feeding⟩ := engine_run_feeding capacityPositive chunkPositive .wait blocks _ sink
    completed
  obtain ⟨rest, start⟩ := waiting_taken capacityPositive chunkPositive blocks _ sink completed
  have first : payloads final.writer <+: lines :=
    (payloads_first feeding).trans (pieces_of_lines plain short start)
  refine ⟨first, ?_⟩
  rw [feeding.records, List.map_map]
  apply List.map_congr_left
  intro line member
  have below : line.length < chunkSize := short line (first.subset member)
  have roomy : jpJsonValueEncoder line (chunkSize * jsonEscapeMul) = line.flatMap escaped :=
    value_encoder_whole (Nat.le_of_lt below)
  change JsonText.unescape (jpJsonValueEncoder line (chunkSize * jsonEscapeMul)) = some line
  rw [roomy, unescape_escaped]

/-- The record of `a` reads back. -/
theorem one_line_in_order :
    ∃ final, Schedules.run (Engine.step ⟨4, jpFieldSetCreate 0, jpEncoderJson⟩ takeAll)
        (Engine.start 1 .wait (fun _ => []) [0x61, newline] ()) oneLine = some final ∧
      payloads final.writer <+: [[0x61]] ∧
      final.writer.records.map (fun record => JsonText.unescape record.encoded) =
        (payloads final.writer).map some := by
  have ran : (Schedules.run (Engine.step ⟨4, jpFieldSetCreate 0, jpEncoderJson⟩ takeAll)
      (Engine.start 1 .wait (fun _ => []) [0x61, newline] ()) oneLine).isSome = true := by decide
  obtain ⟨final, completed⟩ := Option.isSome_iff_exists.mp ran
  exact ⟨final, completed, lines_in_order Nat.one_pos (by decide) (fun _ => []) [[0x61]] ()
    (by decide) (by decide) oneLine final completed⟩

/-! ### What is on its way -/

/-- The bytes the writer has gone past: those of the blocks popped, and those of the
block it reads up to `start_ptr`. -/
def Engine.consumed (engine : Engine σ) : List Byte :=
  engine.threads.queue.popped.flatten ++
    ((engine.threads.queue.consumer.read.map Prod.snd).getD []).take engine.startPtr

/-- What the writer has gone past and what is left of its block are the blocks
taken. -/
theorem consumed_unread {engine : Engine σ} (consistent : Consistent engine.threads.queue) :
    engine.consumed ++ engine.unread = engine.taken.flatten := by
  rw [unread_eq consistent, Engine.consumed, Engine.taken, List.append_assoc,
    List.take_append_drop, List.flatten_append]
  cases engine.threads.queue.consumer.read <;> simp

/-- What the writer has gone past is written, carried, or a newline. -/
theorem consumed_written {stdin : List Byte} {sink : σ} {engine : Engine σ}
    (paired : Paired ctx.chunkSize stdin engine.threads)
    (feeding : Feeding ctx emit sink engine) (going : engine.Going) :
    engine.consumed.filter (· ≠ newline) =
      (payloads engine.writer).flatten ++ engine.writer.overflow := by
  have whole := Cutting.feed_conserves ctx.chunkSize newline []
    (Cutting.markBlocks ctx.chunkSize engine.taken)
  have left := Cutting.feed_conserves ctx.chunkSize newline engine.writer.overflow
    (Cutting.markLast (engine.short ctx.chunkSize) engine.unread)
  rw [feeding.cut going, Cutting.mark_blocks_items, ← consumed_unread paired.consistent,
    List.filter_append, List.nil_append, List.flatten_append, List.append_assoc, left,
    Cutting.mark_last_items, ← List.append_assoc] at whole
  exact (List.append_cancel_right whole).symm

/-- The bytes the reader dropped. -/
def Reader.dropped (reader : Reader) : List Byte :=
  (reader.log.filterMap fun
    | .committed _ => none
    | .discarded bytes => some bytes).flatten

/-- The bytes read were dropped or committed, or are in the reader's block: each of
them is in one of the three, as often as it was read. -/
theorem read_split {chunkSize : Nat} {reader : Reader} (accounted : Accounted chunkSize reader) :
    reader.bytesRead.Perm (reader.dropped ++ (reader.committed.flatten ++ reader.held)) := by
  have parts (log : List Fate) : (log.flatMap Fate.bytes).Perm
      (Reader.dropped { reader with log := log } ++
        (Reader.committed { reader with log := log }).flatten) := by
    induction log with
    | nil => exact List.Perm.refl _
    | cons fate rest ih =>
      rw [List.flatMap_cons]
      cases fate with
      | committed bytes =>
        have moved := (List.Perm.append_left bytes ih).trans (List.perm_append_comm_assoc _ _ _)
        simpa [Reader.committed, Reader.dropped, Fate.bytes] using moved
      | discarded bytes =>
        simpa [Reader.committed, Reader.dropped, Fate.bytes] using List.Perm.append_left bytes ih
  rw [accounted.bytes, ← List.append_assoc]
  exact (parts reader.log).append_right _

/-- Blocks of at most a chunk hold at most a chunk each. -/
theorem flatten_bounded {chunkSize : Nat} (blocks : List (List Byte))
    (sizes : ∀ block ∈ blocks, block.length ≤ chunkSize) :
    blocks.flatten.length ≤ blocks.length * chunkSize := by
  induction blocks with
  | nil => exact Nat.zero_le _
  | cons block rest ih =>
    have first := sizes block List.mem_cons_self
    have others := ih fun other member => sizes other (List.mem_cons_of_mem block member)
    rw [List.flatten_cons, List.length_append, List.length_cons, Nat.add_mul, Nat.one_mul]
    omega

/-- The bytes that stand in the ring: what is left of the block the writer reads, the
committed blocks behind it, and the block the reader fills. -/
def Engine.inRing (engine : Engine σ) : List Byte :=
  engine.unread ++
    ((engine.threads.queue.pending.drop
      engine.threads.queue.consumer.read.toList.length).map Prod.snd).flatten ++
    engine.threads.queue.held.getD []

/-- The bytes the reader has kept are those the writer has gone past and those in the
ring, in their order. -/
theorem consumed_ring {chunkSize : Nat} {stdin : List Byte} {engine : Engine σ}
    (paired : Paired chunkSize stdin engine.threads) :
    engine.consumed ++ engine.inRing =
      engine.threads.reader.committed.flatten ++ engine.threads.reader.held := by
  rw [Engine.inRing, ← List.append_assoc, ← List.append_assoc, consumed_unread paired.consistent,
    ← paired.committed, taken_pending paired.consistent, Reader.held, ← paired.held,
    Engine.taken, List.flatten_append, List.flatten_append, List.flatten_append]

/-- Between the writer and the reader there are never more bytes than the ring has
room for: the block the reader fills is one of its slots. -/
theorem ring_bounded {chunkSize : Nat} {stdin : List Byte} {state : Pipeline}
    (paired : Paired chunkSize stdin state) :
    state.reader.committed.flatten.length + state.reader.held.length ≤
      state.queue.popped.flatten.length + state.queue.capacity * chunkSize := by
  have consistent := paired.consistent
  obtain ⟨delivered, split, popped⟩ := consistent.history
  have parts : state.reader.committed = state.queue.popped ++ state.queue.pending.map Prod.snd := by
    rw [← paired.committed, split, List.map_append, popped]
  have pending : (state.queue.pending.map Prod.snd).flatten.length ≤
      state.queue.length * chunkSize := by
    have sizes : ∀ block ∈ state.queue.pending.map Prod.snd, block.length ≤ chunkSize :=
      fun block member => (paired.accounted.sizes block
        (parts ▸ List.mem_append_right _ member)).2
    simpa [Queue.pending] using flatten_bounded _ sizes
  rw [parts, List.flatten_append, List.length_append]
  by_cases none : state.reader.held = []
  · have bounded := Nat.mul_le_mul_right chunkSize consistent.bounded
    rw [none, List.length_nil]
    omega
  · have holding : ∃ slot, state.queue.producer = .holding slot := by
      cases point : state.queue.producer with
      | holding slot => exact ⟨slot, rfl⟩
      | _ =>
        have held := paired.held
        simp only [Queue.held, point] at held
        exact absurd (held_of_none held.symm) none
    obtain ⟨slot, point⟩ := holding
    have room := (consistent.producing slot point).2
    have bounded := Nat.mul_le_mul_right chunkSize (Nat.succ_le_of_lt room)
    have size := paired.accounted.size
    rw [Nat.succ_mul] at bounded
    omega

/-- No step changes the number of slots. -/
theorem step_capacity {β : Type} {queue next : Queue β} {label : QueueLabel β} {capacity : Nat}
    (same : queue.capacity = capacity) (taken : queue.step label = some next) :
    next.capacity = capacity := by
  cases label with
  | pushLoadActive | pushLoadLength | pushLocked | wakeProducer =>
    obtain ⟨point, rfl⟩ := push_moves rfl taken
    exact same
  | fill content =>
    obtain ⟨slot, _, rfl⟩ := fill_cases taken
    exact same
  | pushCommit =>
    obtain ⟨slot, _, rfl⟩ := push_commit_cases taken
    exact same
  | popLoadLength | popLocked | wakeConsumer | popRead =>
    obtain ⟨point, rfl⟩ := pop_moves rfl (by simp) taken
    exact same
  | popCommit =>
    obtain ⟨slot, content, _, rfl⟩ := pop_commit_cases taken
    exact same
  | finalizeLoad =>
    obtain ⟨_, rfl⟩ | ⟨_, rfl⟩ := finalize_load_cases taken <;> exact same
  | finalizeLocked =>
    obtain ⟨_, rfl⟩ := finalize_locked_cases taken
    exact same

/-- The ring of a run has the slots it was created with. -/
theorem engine_capacity {capacity : Nat} {policy : Policy} {blocks : Nat → List Byte}
    {stdin : List Byte} {sink : σ} {schedule : List EngineLabel} {final : Engine σ}
    (completed : Schedules.run (Engine.step ctx emit)
      (Engine.start capacity policy blocks stdin sink) schedule = some final) :
    final.threads.queue.capacity = capacity := by
  have sized (before : Engine σ) (label : EngineLabel) (after : Engine σ)
      (same : before.threads.queue.capacity = capacity)
      (taken : before.step ctx emit label = some after) :
      after.threads.queue.capacity = capacity :=
    @engine_keeps σ ctx emit (fun state => state.queue.capacity = capacity)
      (fun _ _ _ => step_keeps fun _ _ _ => step_capacity) _ _ _ same taken
  exact Schedules.run_invariant sized rfl completed

/-- In every run each byte read was dropped, or the writer has gone past it, or it
stands in the ring, as often as it was read; those that were not dropped stand in the
order of the input, and the ring holds at most its capacity times the chunk. Unless
the writer has left its loop in the middle of a block, as it does when a write fails,
what it has gone past it has written, but for the newlines and at most a chunk in the
overflow. -/
theorem backlog_bounded {capacity : Nat} (capacityPositive : 0 < capacity)
    (chunkPositive : 0 < ctx.chunkSize) (policy : Policy) (blocks : Nat → List Byte)
    (stdin : List Byte) (sink : σ) (schedule : List EngineLabel) (final : Engine σ)
    (completed : Schedules.run (Engine.step ctx emit)
      (Engine.start capacity policy blocks stdin sink) schedule = some final) :
    final.threads.reader.bytesRead.Perm
        (final.threads.reader.dropped ++ (final.consumed ++ final.inRing)) ∧
      (final.consumed ++ final.inRing).Sublist final.threads.reader.bytesRead ∧
      final.inRing.length ≤ capacity * ctx.chunkSize ∧
      final.writer.overflow.length ≤ ctx.chunkSize ∧
      (final.Going → final.consumed.filter (· ≠ newline) =
        (payloads final.writer).flatten ++ final.writer.overflow) := by
  obtain ⟨paired, feeding⟩ := engine_run_feeding capacityPositive chunkPositive policy blocks
    stdin sink completed
  have room := engine_capacity completed
  have kept := consumed_ring paired
  refine ⟨kept ▸ read_split paired.accounted, kept ▸ kept_sublist paired.accounted, ?_,
    feeding.carried, consumed_written paired feeding⟩
  have ring := ring_bounded paired
  have past : final.threads.queue.popped.flatten.length ≤ final.consumed.length := by
    rw [Engine.consumed, List.length_append]
    exact Nat.le_add_right _ _
  have lengths := congrArg List.length kept
  rw [List.length_append, List.length_append] at lengths
  rw [room] at ring
  omega

/-- With the second line dropped, all that was read is accounted for: at most one
block of two bytes stands in the ring. -/
theorem dropped_line_backlog :
    ∃ final, Schedules.run (Engine.step (bareWriter 2) takeAll)
        (Engine.start 1 .drop (fun _ => []) [0x61, newline, 0x62, newline] ()) droppedLine =
          some final ∧
      final.threads.reader.bytesRead.Perm
        (final.threads.reader.dropped ++ (final.consumed ++ final.inRing)) ∧
      final.inRing.length ≤ 1 * 2 := by
  have ran : (Schedules.run (Engine.step (bareWriter 2) takeAll)
      (Engine.start 1 .drop (fun _ => []) [0x61, newline, 0x62, newline] ()) droppedLine).isSome =
        true := by decide
  obtain ⟨final, completed⟩ := Option.isSome_iff_exists.mp ran
  obtain ⟨accounted, _, bounded, _⟩ := backlog_bounded Nat.one_pos (by decide) .drop (fun _ => [])
    [0x61, newline, 0x62, newline] () droppedLine final completed
  exact ⟨final, completed, accounted, bounded⟩

end Runs

end JPipe
