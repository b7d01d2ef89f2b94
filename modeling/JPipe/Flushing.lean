import JPipe.Lines
import Mathlib.Data.List.Basic

/-!
# Nothing is kept back from the poller

A reader whose `read` answers that there is no input yet commits what it has read
before it asks the poller again. Where it stands in `jp_poller_wait` and the ring is
empty, every byte read is written but for the line in progress, whatever was
interrupted, answered or signalled on the way. A `read` that blocks is another thing:
a reader that stands in it may hold lines back in its block.
-/

namespace JPipe

/-- The pieces of complete lines and a part of one more, all shorter than the
capacity. -/
theorem pieces_of_part {cap : Nat} {lines blocks : List (List Byte)} {part : List Byte}
    (plain : ∀ line ∈ lines, newline ∉ line) (short : ∀ line ∈ lines, line.length < cap)
    (partPlain : newline ∉ part) (partShort : part.length < cap)
    (stream : blocks.flatten = lines.flatMap (fun line => line ++ [newline]) ++ part) :
    Cutting.feed cap newline [] (Cutting.markBlocks cap blocks) = (lines, part) := by
  have items : (Cutting.markBlocks cap blocks).map Prod.fst =
      lines.flatMap (fun line => line ++ [newline]) ++ part := by
    rw [Cutting.mark_blocks_items, stream]
  obtain ⟨front, back, split, whole, last⟩ := List.map_eq_append_iff.mp items
  have size : back.length = part.length := by rw [← last, List.length_map]
  have held := Cutting.feed_fitting cap newline [] back (last ▸ partPlain)
    (by simp only [List.length_nil, size]; omega)
    (fun full => by simp only [List.length_nil, size] at full; omega)
  rw [split, Cutting.feed_append, Cutting.feed_short_lines newline lines plain short front whole,
    held, last]
  simp

section Runs

variable {σ : Type} {ctx : WriterCtx} {emit : σ → List Byte → Option (σ × Errno)}

/-- With an empty ring the writer has read all that was committed to the end. -/
theorem empty_taken {chunkSize : Nat} {stdin : List Byte} {engine : Engine σ}
    (paired : Paired chunkSize stdin engine.threads) (empty : engine.threads.queue.length = 0) :
    engine.taken = engine.threads.reader.committed ∧ engine.unread = [] := by
  have consistent := paired.consistent
  have apart : engine.threads.queue.consumer.read = none := by
    cases point : engine.threads.queue.consumer with
    | reading slot content =>
      obtain ⟨_, some, _⟩ := consistent.reading slot content point
      omega
    | _ => rfl
  constructor
  · rw [Engine.taken, apart, ← paired.committed, empty_popped consistent empty]
    simp
  · rw [unread_eq consistent, apart]
    simp

/-- A reader that waits under the waiting policy has committed all it has read. -/
theorem waiting_committed {chunkSize : Nat} {stdin : List Byte} {state : Pipeline}
    {past : List ReaderEvent} (paired : Paired chunkSize stdin state)
    (filling : Filling chunkSize past state.reader) (standing : state.reader.point = .wait) :
    state.reader.committed.flatten = state.reader.bytesRead := by
  have nothing : state.reader.held = [] := stands_at paired.accounted standing
  rw [paired.accounted.bytes, nothing, filling.kept, List.flatMap_map, List.append_nil]
  exact List.flatMap_id'.symm

/-- Where the reader waits and the ring is empty, a writer that no write has failed
has written every complete line that was read, and holds the line in progress. -/
theorem waiting_written {stdin : List Byte} {sink : σ} {engine : Engine σ}
    {past : List ReaderEvent} (paired : Paired ctx.chunkSize stdin engine.threads)
    (feeding : Feeding ctx emit sink engine)
    (filling : Filling ctx.chunkSize past engine.threads.reader)
    (waiting : engine.threads.reader.point = .wait) (empty : engine.threads.queue.length = 0)
    (going : engine.Going) {lines : List (List Byte)} {part : List Byte}
    (read : engine.threads.reader.bytesRead = lines.flatMap (fun line => line ++ [newline]) ++ part)
    (plain : ∀ line ∈ lines, newline ∉ line) (short : ∀ line ∈ lines, line.length < ctx.chunkSize)
    (partPlain : newline ∉ part) (partShort : part.length < ctx.chunkSize) :
    payloads engine.writer = lines ∧ engine.writer.overflow = part ∧
      emitRecords emit sink engine.writer.records =
        some (engine.writer.records, engine.writer.sink, .ok) := by
  obtain ⟨taken, unread⟩ := empty_taken paired empty
  have cut := feeding.cut going
  have stream : engine.taken.flatten = lines.flatMap (fun line => line ++ [newline]) ++ part := by
    rw [taken, waiting_committed paired filling waiting, read]
  rw [unread, Cutting.markLast, Cutting.feed, List.append_nil,
    pieces_of_part plain short partPlain partShort stream] at cut
  obtain ⟨whole, rest⟩ := Prod.mk.inj cut
  exact ⟨whole.symm, rest.symm, feeding.written going⟩

/-- Under the waiting policy everything the reader commits is what it has read. -/
theorem engine_run_filling {capacity : Nat} (chunkPositive : 0 < ctx.chunkSize)
    {blocks : Nat → List Byte} {stdin : List Byte} {sink : σ} {schedule : List EngineLabel}
    {final : Engine σ}
    (completed : Schedules.run (Engine.step ctx emit)
      (Engine.start capacity .wait blocks stdin sink) schedule = some final) :
    ∃ past, Filling ctx.chunkSize past final.threads.reader := by
  have start : (Engine.start capacity .wait blocks stdin sink).threads.queue.policy = .wait ∧
      ∃ past, Filling ctx.chunkSize past
        (Engine.start capacity .wait blocks stdin sink).threads.reader :=
    ⟨rfl, [], start_filling ctx.chunkSize⟩
  exact (Schedules.run_invariant
    (fun _ _ _ => engine_keeps fun _ _ _ => step_keeping chunkPositive) start completed).2

/-- In every run under the waiting policy, in a state in which the reader stands in
`jp_poller_wait`, the ring is empty and the writer is in its loop: of an input read so far
that is lines shorter than a chunk and a part of one more, all lines have been handed over
with success and the part is in the overflow. -/
theorem idle_flushed {capacity : Nat} (capacityPositive : 0 < capacity)
    (chunkPositive : 0 < ctx.chunkSize) (blocks : Nat → List Byte) (stdin : List Byte) (sink : σ)
    (schedule : List EngineLabel) (final : Engine σ)
    (completed : Schedules.run (Engine.step ctx emit)
      (Engine.start capacity .wait blocks stdin sink) schedule = some final)
    (waiting : final.threads.reader.point = .wait) (empty : final.threads.queue.length = 0)
    (running : final.threads.writer = .running) (lines : List (List Byte)) (part : List Byte)
    (read : final.threads.reader.bytesRead = lines.flatMap (fun line => line ++ [newline]) ++ part)
    (plain : ∀ line ∈ lines, newline ∉ line) (short : ∀ line ∈ lines, line.length < ctx.chunkSize)
    (partPlain : newline ∉ part) (partShort : part.length < ctx.chunkSize) :
    payloads final.writer = lines ∧ final.writer.overflow = part ∧
      emitRecords emit sink final.writer.records =
        some (final.writer.records, final.writer.sink, .ok) := by
  obtain ⟨paired, feeding⟩ := engine_run_feeding capacityPositive chunkPositive .wait blocks
    stdin sink completed
  obtain ⟨past, filling⟩ := engine_run_filling chunkPositive completed
  exact waiting_written paired feeding filling waiting empty (Or.inl running) read plain short
    partPlain partShort

/-- A line and the first byte of the next, with the poller asked again in between. -/
def lineAndPart : List EngineLabel :=
  [.thread (.call (.created .ok)), .thread (.call (.registered .ok)),
    .thread (.call (.waited .ok)), .thread (.push .pushLoadActive),
    .thread (.push .pushLoadLength), .thread (.call (.read (.data [0x61, newline, 0x62]))),
    .thread (.pop .popLoadLength), .thread (.call (.read .eagain)), .thread .commit,
    .thread (.call (.waited .etryagain)), .thread (.pop .popLocked), .thread (.pop .popRead),
    .turn, .turn, .thread (.pop .popCommit), .thread (.pop .popLoadLength),
    .thread (.pop .popLocked)]

/-- The line is written while the reader waits for more, and the byte is kept. -/
theorem line_and_part_flushed :
    ∃ final, Schedules.run (Engine.step (bareWriter 4) takeAll)
        (Engine.start 1 .wait (fun _ => []) [0x61, newline, 0x62, 0x63] ()) lineAndPart =
          some final ∧
      payloads final.writer = [[0x61]] ∧ final.writer.overflow = [0x62] := by
  have ran : (Schedules.run (Engine.step (bareWriter 4) takeAll)
      (Engine.start 1 .wait (fun _ => []) [0x61, newline, 0x62, 0x63] ()) lineAndPart).map
        (fun final => (final.threads.reader.point, final.threads.queue.length,
          final.threads.writer, final.threads.reader.bytesRead)) =
      some (.wait, 0, .running, [0x61, newline, 0x62]) := by decide
  obtain ⟨final, completed, seen⟩ := Option.map_eq_some_iff.mp ran
  simp only [Prod.mk.injEq] at seen
  obtain ⟨waiting, empty, running, read⟩ := seen
  have flushed := idle_flushed Nat.one_pos (by decide) (fun _ => []) [0x61, newline, 0x62, 0x63] ()
    lineAndPart final completed waiting empty running [[0x61]] [0x62] read (by decide) (by decide)
    (by decide) (by decide)
  exact ⟨final, completed, flushed.1, flushed.2.1⟩

end Runs

end JPipe
