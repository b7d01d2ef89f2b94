import JPipe.Writer
import JPipe.Contiguity
import Mathlib.Data.List.Basic

/-!
# What the writer makes of a stream

Three questions about whole runs of `jp_writer_produce` in which every write
succeeds: whether each byte of the stream reaches a record, whether the records
depend on how the stream was cut into blocks, and what becomes of short lines.

The carried bytes are never written at shutdown, so an unterminated last line is
lost unless the overflow happened to be emptied after it. The overflow is
emptied as soon as copying fills it, yet a whole block of exactly the chunk size
waits in it for the next block: a line that ends at a multiple of the chunk size
is followed by an empty record in the first case and not in the second.
-/

namespace JPipe

/-- A descriptor that takes everything. -/
def takeAll (_ : Unit) (_ : List Byte) : Option (Unit × Errno) := some ((), .ok)

theorem take_all_succeeds : WritesSucceed takeAll := fun _ _ => ⟨(), rfl⟩

/-- The writer of `jpipe run` without fields. -/
def bareWriter (chunkSize : Nat) : WriterCtx where
  chunkSize := chunkSize
  fields := jpFieldSetCreate 0
  encoder := jpEncoderJson

section Streams

variable {σ : Type} {ctx : WriterCtx} {emit : σ → List Byte → Option (σ × Errno)}

/-- The raw payloads of the records, in the order they were written. -/
def payloads (writer : Writer σ) : List (List Byte) := writer.records.map Record.payload

/-- The payloads of the records are the pieces of the stream's cutting. -/
theorem record_payloads (blocks : List (List Byte)) :
    (recordsOf ctx blocks).map Record.payload = (Cutting.feed ctx.chunkSize newline []
      (Cutting.markBlocks ctx.chunkSize blocks)).1 := by
  rw [recordsOf, List.map_map]
  exact List.map_id' _

/-- The payloads are these pieces when all records were written. -/
theorem payloads_of_records {writer : Writer σ} {blocks : List (List Byte)}
    (records : writer.records = recordsOf ctx blocks) :
    payloads writer = (Cutting.feed ctx.chunkSize newline []
      (Cutting.markBlocks ctx.chunkSize blocks)).1 := by
  rw [payloads, records, record_payloads]

/-- Every block that fits is nonempty. -/
theorem blocks_nonempty {chunkSize : Nat} {blocks : List (List Byte)}
    (fit : BlocksFit chunkSize blocks) : ∀ block ∈ blocks, block ≠ [] := by
  intro block member
  exact List.length_pos_iff.mp (fit block member).1

/-- What stands after the last newline of a stream. -/
def lastLine (stream : List Byte) : List Byte :=
  (stream.reverse.takeWhile (fun ch => decide (ch ≠ newline))).reverse

/-- The length of the last line is the count of the cutting. -/
theorem last_line_length (stream : List Byte) :
    (lastLine stream).length = Cutting.sinceDelimiter newline 0 stream := by
  rw [lastLine, List.length_reverse, Cutting.since_delimiter_eq]

/-- The payloads are the stream without its newlines exactly when the stream ends
with a newline, or its last line has a multiple of the chunk size and ends with a
block shorter than that. -/
theorem payloads_complete_iff (succeeds : WritesSucceed emit) (sink : σ)
    (blocks : List (List Byte)) (fit : BlocksFit ctx.chunkSize blocks) :
    ∃ final, jpWriterProduce ctx emit sink blocks = some (final, .ok) ∧
      ((payloads final).flatten = blocks.flatten.filter (· ≠ newline) ↔
        lastLine blocks.flatten = [] ∨ ctx.chunkSize ∣ (lastLine blocks.flatten).length ∧
          ∃ block ∈ blocks.getLast?, block.length < ctx.chunkSize) := by
  obtain ⟨final, produced, records, _⟩ := writer_completes ctx emit succeeds sink blocks fit
  refine ⟨final, produced, ?_⟩
  have conserved := Cutting.feed_conserves ctx.chunkSize newline []
    (Cutting.markBlocks ctx.chunkSize blocks)
  rw [Cutting.mark_blocks_items, List.nil_append] at conserved
  rw [payloads_of_records records, ← conserved, List.self_eq_append_right,
    ← List.length_eq_zero_iff (l := lastLine _), last_line_length]
  cases blocks with
  | nil => simp [Cutting.markBlocks, Cutting.feed, Cutting.sinceDelimiter]
  | cons block rest =>
    have sized := fit block List.mem_cons_self
    exact Cutting.blocks_drained_iff (by omega) newline (block :: rest) (blocks_nonempty fit)

/-- A terminated line arrives in full. -/
theorem terminated_line_complete :
    ∃ final, jpWriterProduce (bareWriter 1024) takeAll () [[0x68, 0x69], [newline]] =
        some (final, .ok) ∧ (payloads final).flatten = [0x68, 0x69] := by
  obtain ⟨final, produced, complete⟩ := @payloads_complete_iff Unit (bareWriter 1024) takeAll
    take_all_succeeds () [[0x68, 0x69], [newline]] (by decide)
  exact ⟨final, produced, complete.mpr (Or.inl rfl)⟩

/-- The stream `hi`, without a newline, leaves no record. -/
theorem unterminated_line_lost :
    BlocksFit (bareWriter 1024).chunkSize [[0x68, 0x69]] ∧
      ∃ final, jpWriterProduce (bareWriter 1024) takeAll () [[0x68, 0x69]] = some (final, .ok) ∧
        (payloads final).flatten ≠ ([[0x68, 0x69]] : List (List Byte)).flatten.filter
          (· ≠ newline) :=
  ⟨by decide, _, rfl, by decide⟩

/-- Two cuts of one stream give the same payloads exactly when, wherever a line
ends at a positive multiple of the chunk size, both or neither have a block ending
there that is shorter than the chunk size. -/
theorem payloads_alike_iff (succeeds : WritesSucceed emit) (sink : σ)
    (first second : List (List Byte)) (firstFit : BlocksFit ctx.chunkSize first)
    (secondFit : BlocksFit ctx.chunkSize second) (same : first.flatten = second.flatten) :
    ∃ one other, jpWriterProduce ctx emit sink first = some (one, .ok) ∧
      jpWriterProduce ctx emit sink second = some (other, .ok) ∧
      (payloads one = payloads other ↔
        ∀ place, Cutting.FullEnd ctx.chunkSize newline 0 first.flatten place →
          (Cutting.EndsEarly ctx.chunkSize first place ↔
            Cutting.EndsEarly ctx.chunkSize second place)) := by
  obtain ⟨one, oneProduced, oneRecords, _⟩ := writer_completes ctx emit succeeds sink first firstFit
  obtain ⟨other, otherProduced, otherRecords, _⟩ :=
    writer_completes ctx emit succeeds sink second secondFit
  refine ⟨one, other, oneProduced, otherProduced, ?_⟩
  have nonempty : ∀ block ∈ first ++ second, block ≠ [] := by
    intro block member
    cases List.mem_append.mp member with
    | inl inFirst => exact blocks_nonempty firstFit block inFirst
    | inr inSecond => exact blocks_nonempty secondFit block inSecond
  rw [payloads_of_records oneRecords, payloads_of_records otherRecords,
    ← Cutting.agree_blocks_iff ctx.chunkSize newline first second nonempty same]
  cases first with
  | nil =>
    have none : second = [] := by
      cases second with
      | nil => rfl
      | cons block rest =>
        have empty : block = [] := by simpa using (List.append_eq_nil_iff.mp same.symm).1
        exact absurd empty (nonempty block (by simp))
    simp [none, Cutting.Agree]
  | cons block rest =>
    have sized := firstFit block List.mem_cons_self
    apply Cutting.pieces_eq_iff (by omega) newline
    · rw [Cutting.mark_blocks_items, Cutting.mark_blocks_items, same]
    · exact Cutting.holds_start ctx.chunkSize

/-- Two cuts of the line `abcd`, of exactly the chunk size, agree: in both a short block
ends where the line does. -/
theorem short_line_alike :
    ∃ one other, jpWriterProduce (bareWriter 4) takeAll ()
        [[0x61, 0x62], [0x63, 0x64], [newline]] = some (one, .ok) ∧
      jpWriterProduce (bareWriter 4) takeAll () [[0x61], [0x62, 0x63, 0x64], [newline]] =
        some (other, .ok) ∧
      payloads one = payloads other := by
  obtain ⟨one, other, oneProduced, otherProduced, alike⟩ :=
    @payloads_alike_iff Unit (bareWriter 4) takeAll take_all_succeeds ()
      [[0x61, 0x62], [0x63, 0x64], [newline]] [[0x61], [0x62, 0x63, 0x64], [newline]]
      (by decide) (by decide) rfl
  refine ⟨one, other, oneProduced, otherProduced, alike.mpr ?_⟩
  intro place ends
  have single : ∀ place : Fin 6, Cutting.FullEnd 4 newline 0
      [0x61, 0x62, 0x63, 0x64, newline] place → place = 4 := by decide
  obtain rfl : place = 4 := congrArg Fin.val (single ⟨place, Nat.lt_succ_of_le ends.1⟩ ends)
  exact iff_of_true ⟨[[0x61, 0x62]], [0x63, 0x64], [[newline]], rfl, by decide, rfl⟩
    ⟨[[0x61]], [0x62, 0x63, 0x64], [[newline]], rfl, by decide, rfl⟩

/-- The line `abcd`, of exactly the chunk size, in one block and in two. -/
theorem full_line_cut_differs :
    BlocksFit 4 [[0x61, 0x62, 0x63, 0x64], [newline]] ∧
      BlocksFit 4 [[0x61, 0x62], [0x63, 0x64], [newline]] ∧
      ([[0x61, 0x62, 0x63, 0x64], [newline]] : List (List Byte)).flatten =
        ([[0x61, 0x62], [0x63, 0x64], [newline]] : List (List Byte)).flatten ∧
      ∃ one other, jpWriterProduce (bareWriter 4) takeAll ()
          [[0x61, 0x62, 0x63, 0x64], [newline]] = some (one, .ok) ∧
        jpWriterProduce (bareWriter 4) takeAll () [[0x61, 0x62], [0x63, 0x64], [newline]] =
          some (other, .ok) ∧
        payloads one ≠ payloads other :=
  ⟨by decide, by decide, rfl, _, _, rfl, rfl, by decide⟩

/-- Terminated lines shorter than the chunk size become one record each, in order, all
of them are handed to the descriptor, and each record's value reads back as its line. -/
theorem short_lines_recorded {chunkSize : Nat} {fields : FieldSet} (succeeds : WritesSucceed emit)
    (sink : σ) (lines blocks : List (List Byte)) (fit : BlocksFit chunkSize blocks)
    (plain : ∀ line ∈ lines, newline ∉ line) (short : ∀ line ∈ lines, line.length < chunkSize)
    (stream : blocks.flatten = lines.flatMap (fun line => line ++ [newline])) :
    ∃ final, jpWriterProduce ⟨chunkSize, fields, jpEncoderJson⟩ emit sink blocks =
        some (final, .ok) ∧
      payloads final = lines ∧
      emitRecords emit sink final.records = some (final.records, final.sink, .ok) ∧
      final.records.map (fun record => JsonText.unescape record.encoded) = lines.map some := by
  obtain ⟨final, produced, records, handed⟩ :=
    writer_completes ⟨chunkSize, fields, jpEncoderJson⟩ emit succeeds sink blocks fit
  have cut : Cutting.feed chunkSize newline [] (Cutting.markBlocks chunkSize blocks) =
      (lines, []) := by
    apply Cutting.feed_short_lines newline lines plain short
    rw [Cutting.mark_blocks_items, stream]
  refine ⟨final, produced, ?_, handed, ?_⟩
  · rw [payloads_of_records records, cut]
  · rw [records, recordsOf, cut, List.map_map]
    apply List.map_congr_left
    intro line member
    have below : line.length < chunkSize := short line member
    have roomy : jpJsonValueEncoder line (chunkSize * jsonEscapeMul) = line.flatMap escaped :=
      value_encoder_whole (Nat.le_of_lt below)
    change JsonText.unescape (jpJsonValueEncoder line (chunkSize * jsonEscapeMul)) = some line
    rw [roomy, unescape_escaped]

/-- The lines `a` and the empty one, over two blocks. -/
theorem two_lines_recorded :
    ∃ final, jpWriterProduce (bareWriter 4) takeAll () [[0x61], [newline, newline]] =
        some (final, .ok) ∧ payloads final = [[0x61], []] ∧
      emitRecords takeAll () final.records = some (final.records, final.sink, .ok) ∧
      final.records.map (fun record => JsonText.unescape record.encoded) =
        [some [0x61], some []] :=
  short_lines_recorded take_all_succeeds () [[0x61], []] [[0x61], [newline, newline]] (by decide)
    (by decide) (by decide) rfl

end Streams

end JPipe
