import JPipe.Completion
import JPipe.Delivery
import JPipe.Framing
import JPipe.Members
import Mathlib.Data.List.Basic

/-!
# From the input to the output file

The bytes that reach the descriptor, against the bytes of the input. A record has
no newline but its last byte, so the output is a stream of frames; with the fields
known each frame is unwrapped and its line unescaped, and this reader gives back
the lines of the input. Where the fields are not known the stream still has one
reading: no line and no value of a field can pass for another record, or for a
part of one.
-/

namespace JPipe

/-! ### The stream of records -/

/-- What `jp_json_postfix_encoder` ends a record with, before the newline. -/
def recordEnd : List Byte := [0x22, 0x7d]

/-- A record without its newline. -/
def recordFrame (fieldSet : FieldSet) (line : List Byte) : List Byte :=
  jpJsonPrefixEncoder fieldSet ++ (line.flatMap escaped ++ recordEnd)

/-- The lines that are read from an output with these fields; a frame that is no
record has none. -/
def readOutput (fieldSet : FieldSet) (output : List Byte) : List (Option (List Byte)) :=
  (Framing.split newline output).1.map fun frame =>
    (Framing.unwrap (jpJsonPrefixEncoder fieldSet) recordEnd frame).bind JsonText.unescape

/-- A record is its frame and a newline. -/
theorem emitted_record_eq (fieldSet : FieldSet) (line : List Byte) :
    emittedRecord fieldSet line = recordFrame fieldSet line ++ [newline] := by
  have encoded : jpJsonValueEncoder line (line.length * jsonEscapeMul) = line.flatMap escaped :=
    value_encoder_whole (Nat.le_refl line.length)
  simp [emittedRecord, recordFrame, encoded, jpJsonPostfixEncoder, recordEnd, newline]

/-- Records one after the other are frames joined by newlines. -/
theorem emitted_records_eq (fieldSet : FieldSet) (lines : List (List Byte)) :
    lines.flatMap (emittedRecord fieldSet) =
      Framing.join newline (lines.map (recordFrame fieldSet)) := by
  rw [Framing.join, List.flatMap_map]
  exact List.flatMap_congr fun line _ => emitted_record_eq fieldSet line

/-- An escaped text has no newline. -/
theorem escaped_unbroken (text : List Byte) : newline ∉ text.flatMap escaped := by
  intro member
  obtain ⟨ch, _, inside⟩ := List.mem_flatMap.mp member
  exact (escaped_printable ch newline inside).1 (by decide)

/-- A text whose bytes escaping leaves as they are contains no newline, which it would
escape. -/
theorem plain_unbroken {text : List Byte} (plain : ∀ ch ∈ text, escLen ch = 1) : newline ∉ text :=
  fun member => absurd (plain newline member) (by decide)

/-- The prefix of admitted fields has no newline. -/
theorem prefix_unbroken (fieldSet : FieldSet)
    (admitted : ∀ field ∈ fieldSet.fields, AdmittedField field) :
    newline ∉ jpJsonPrefixEncoder fieldSet := by
  have single (field : Field) (own : AdmittedField field) : newline ∉ encodeField field := by
    have key := plain_unbroken (admitted_key_plain field own)
    have value : newline ∉ (rawMember field).2 := by
      cases marked : isJsonStringLiteral field.val with
      | true =>
        have body := escaped_unbroken field.val
        simpa [rawMember, marked, JsonText.quoted, newline, JsonText.quotationMark] using body
      | false =>
        have bare := plain_unbroken (bare_value_plain field.val marked)
        simpa [rawMember, marked] using bare
    rw [encode_field_eq]
    simpa [JsonText.quoted, JsonText.quotationMark, newline] using ⟨key, value⟩
  intro member
  rw [jpJsonPrefixEncoder] at member
  simp only [List.mem_append, List.mem_flatMap, msgKey] at member
  rcases member with (opening | ⟨field, present, inside⟩) | message
  · exact absurd opening (by decide)
  · exact single field (admitted field present) inside
  · exact absurd message (by decide)

/-- A frame has no newline. -/
theorem record_frame_unbroken (fieldSet : FieldSet)
    (admitted : ∀ field ∈ fieldSet.fields, AdmittedField field) (line : List Byte) :
    newline ∉ recordFrame fieldSet line := by
  have front := prefix_unbroken fieldSet admitted
  have body := escaped_unbroken line
  have back : newline ∉ recordEnd := by decide
  simp only [recordFrame, List.mem_append, not_or]
  exact ⟨front, body, back⟩

/-- Reading inverts writing, record by record. -/
theorem read_records (fieldSet : FieldSet)
    (admitted : ∀ field ∈ fieldSet.fields, AdmittedField field) (lines : List (List Byte)) :
    readOutput fieldSet (lines.flatMap (emittedRecord fieldSet)) = lines.map some := by
  have unbroken : ∀ frame ∈ lines.map (recordFrame fieldSet), newline ∉ frame := by
    intro frame member
    obtain ⟨line, _, rfl⟩ := List.mem_map.mp member
    exact record_frame_unbroken fieldSet admitted line
  have frames := Framing.split_join newline _ unbroken [] (by simp)
  rw [List.append_nil] at frames
  rw [readOutput, emitted_records_eq, frames, List.map_map]
  apply List.map_congr_left
  intro line _
  change (Framing.unwrap _ _ (recordFrame fieldSet line)).bind JsonText.unescape = some line
  rw [recordFrame, Framing.unwrap_wrapped, Option.bind_some, unescape_escaped]

/-- A line that looks like the end of a record and the start of another is read as one
line. -/
example : readOutput (addFields 32 [])
    (emittedRecord (addFields 32 []) [0x22, 0x7d, 0x5c, 0x6e, 0x7b]) =
      [some [0x22, 0x7d, 0x5c, 0x6e, 0x7b]] := by decide

/-- A record has one reading: its line and its fields. -/
theorem records_alike {first second : FieldSet}
    (firstAdmitted : ∀ field ∈ first.fields, AdmittedField field)
    (secondAdmitted : ∀ field ∈ second.fields, AdmittedField field) {line other : List Byte}
    (same : recordFrame first line = recordFrame second other) :
    line = other ∧ first.fields = second.fields := by
  have records : emittedRecord first line = emittedRecord second other := by
    rw [emitted_record_eq, emitted_record_eq, same]
  have one := emitted_record_closed first firstAdmitted line
  rw [records] at one
  obtain ⟨members, _, bodies⟩ :=
    JsonText.closed_object_unique one (emitted_record_closed second secondAdmitted other)
  have lines : some line = some other := by
    rw [← unescape_escaped, bodies, unescape_escaped]
  have stand := raw_members_of first.fields firstAdmitted
  rw [members] at stand
  exact ⟨Option.some.inj lines, fields_of_members stand (raw_members_of _ secondAdmitted)⟩

/-- Records are one way only: where the records of two lists of lines, each with the
fields of a set built by additions, are the same bytes one after the other, the lines are
the same and, if there are any, so are the fields. The lines and the values of the fields
may be any bytes. -/
theorem streams_alike (cap otherCap : Nat) (arguments otherArguments : List (List Byte))
    (lines others : List (List Byte))
    (same : lines.flatMap (emittedRecord (addFields cap arguments)) =
      others.flatMap (emittedRecord (addFields otherCap otherArguments))) :
    lines = others ∧ (lines ≠ [] →
      (addFields cap arguments).fields = (addFields otherCap otherArguments).fields) := by
  have firstAdmitted := add_fields_admitted cap arguments
  have secondAdmitted := add_fields_admitted otherCap otherArguments
  have frames : lines.map (recordFrame (addFields cap arguments)) =
      others.map (recordFrame (addFields otherCap otherArguments)) := by
    rw [emitted_records_eq, emitted_records_eq] at same
    apply Framing.join_injective _ _ same
    · intro frame member
      obtain ⟨line, _, rfl⟩ := List.mem_map.mp member
      exact record_frame_unbroken _ firstAdmitted line
    · intro frame member
      obtain ⟨line, _, rfl⟩ := List.mem_map.mp member
      exact record_frame_unbroken _ secondAdmitted line
  clear same
  induction lines generalizing others with
  | nil => exact ⟨(List.map_eq_nil_iff.mp frames.symm).symm, fun some => absurd rfl some⟩
  | cons line rest ih =>
    cases others with
    | nil => simp at frames
    | cons other more =>
      obtain ⟨head, tail⟩ := List.cons_eq_cons.mp frames
      obtain ⟨rfl, fields⟩ := records_alike firstAdmitted secondAdmitted head
      obtain ⟨rfl, _⟩ := ih more tail
      exact ⟨rfl, fun _ => fields⟩

/-- Two sets of different capacities without fields, and a line that looks like the end
of a record. -/
theorem forged_line_alike :
    [[0x22, 0x7d, 0x5c, 0x6e, 0x7b]] = ([[0x22, 0x7d, 0x5c, 0x6e, 0x7b]] : List (List Byte)) ∧
      ([[0x22, 0x7d, 0x5c, 0x6e, 0x7b]] ≠ ([] : List (List Byte)) →
        (addFields 32 []).fields = (addFields 1 []).fields) :=
  streams_alike 32 1 [] [] [[0x22, 0x7d, 0x5c, 0x6e, 0x7b]] [[0x22, 0x7d, 0x5c, 0x6e, 0x7b]] rfl

section Runs

variable {capacity chunkSize cap : Nat} {arguments : List (List Byte)}

/-- The bytes of the records of lines that fit a chunk. -/
theorem line_records_bytes {lines : List (List Byte)}
    (short : ∀ line ∈ lines, line.length < chunkSize) :
    (lines.map (recordOf ⟨chunkSize, addFields cap arguments, jpEncoderJson⟩)).flatMap
        (recordBytes ⟨chunkSize, addFields cap arguments, jpEncoderJson⟩) =
      lines.flatMap (emittedRecord (addFields cap arguments)) := by
  rw [List.flatMap_map]
  apply List.flatMap_congr
  intro line member
  have roomy : jpJsonValueEncoder line (chunkSize * jsonEscapeMul) = line.flatMap escaped :=
    value_encoder_whole (Nat.le_of_lt (short line member))
  have whole : jpJsonValueEncoder line (line.length * jsonEscapeMul) = line.flatMap escaped :=
    value_encoder_whole (Nat.le_refl line.length)
  change jpJsonPrefixEncoder _ ++ jpJsonValueEncoder line (chunkSize * jsonEscapeMul) ++ _ = _
  rw [roomy, emittedRecord, whole]
  rfl

/-- A descriptor that answers no call with a failure never fails. -/
theorem resumable_unfailing {ctx : WriterCtx} (heap : Memory) {script : List WritevResult}
    (resumable : ∀ answer ∈ script, Resumable answer) :
    Unfailing emitIo (openIo ctx heap script) :=
  fun _ _ _ _ emitted => (emit_records_succeed resumable (emit_handing emitted)).1

/-- In every run under the waiting policy over a descriptor that fails no call, whose
counts so far end at the ends of entries, the bytes that reached the descriptor are read
back as lines, they are the first lines of the input, and the pointers are those
allocated; and in a run without a fault and without a signal all lines have been
written when both threads have returned. -/
theorem output_reads_back (capacityPositive : 0 < capacity) (chunkPositive : 0 < chunkSize)
    (heap : Memory) (script : List WritevResult)
    (resumable : ∀ answer ∈ script, Resumable answer) (blocks : Nat → List Byte)
    (lines : List (List Byte)) (plain : ∀ line ∈ lines, newline ∉ line)
    (short : ∀ line ∈ lines, line.length < chunkSize) (schedule : List EngineLabel)
    (final : Engine WriterIo)
    (completed : Schedules.run
      (Engine.step ⟨chunkSize, addFields cap arguments, jpEncoderJson⟩ emitIo)
      (Engine.start capacity .wait blocks (lines.flatMap fun line => line ++ [newline])
        (openIo ⟨chunkSize, addFields cap arguments, jpEncoderJson⟩ heap script))
      schedule = some final)
    (used : final.writer.sink.script = [])
    (aligned : Aligned (counts script) (final.writer.records.flatMap
      (entrySizes ⟨chunkSize, addFields cap arguments, jpEncoderJson⟩))) :
    (readOutput (addFields cap arguments) final.writer.sink.output =
        (payloads final.writer).map some ∧
      payloads final.writer <+: lines ∧ freed final.writer.sink = allocated) ∧
    ((∀ label ∈ schedule, label.faultless = true ∧ label.unsignalled = true) → final.Finished →
      readOutput (addFields cap arguments) final.writer.sink.output = lines.map some) := by
  have unfailing := @resumable_unfailing ⟨chunkSize, addFields cap arguments, jpEncoderJson⟩ heap
    script resumable
  obtain ⟨paired, feeding⟩ := engine_run_feeding capacityPositive chunkPositive .wait blocks _ _
    completed
  have written := feeding.written (unfailing_going unfailing feeding)
  obtain ⟨output, pointers⟩ := (emit_records_delivers _ (open_pristine _ heap script) resumable
    written used).mpr aligned
  obtain ⟨rest, start⟩ := waiting_taken capacityPositive chunkPositive blocks _ _ completed
  have first : payloads final.writer <+: lines :=
    (payloads_first feeding).trans (pieces_of_lines plain short start)
  have bytes : final.writer.sink.output =
      (payloads final.writer).flatMap (emittedRecord (addFields cap arguments)) := by
    rw [output, feeding.records, line_records_bytes fun line member =>
      short line (first.subset member)]
    rfl
  have read : readOutput (addFields cap arguments) final.writer.sink.output =
      (payloads final.writer).map some := by
    rw [bytes, read_records _ (add_fields_admitted cap arguments)]
  refine ⟨⟨read, first, pointers⟩, fun quiet finished => ?_⟩
  have unbroken := run_unbroken capacityPositive chunkPositive unfailing completed quiet
  rw [read, (lines_delivered unfailing plain short unbroken finished).lines]

/-- The line `a`, written by two calls after an interrupted one, is read back. -/
theorem one_line_reads_back :
    ∃ final, Schedules.run
        (Engine.step ⟨4, addFields 0 [], jpEncoderJson⟩ emitIo)
        (Engine.start 1 .wait (fun _ => []) [0x61, newline]
          (openIo ⟨4, addFields 0 [], jpEncoderJson⟩ (fun _ _ => 0) [.eintr, .wrote 8, .wrote 3]))
        oneLine = some final ∧
      readOutput (addFields 0 []) final.writer.sink.output = [some [0x61]] := by
  have ran : (Schedules.run
      (Engine.step ⟨4, addFields 0 [], jpEncoderJson⟩ emitIo)
      (Engine.start 1 .wait (fun _ => []) [0x61, newline]
        (openIo ⟨4, addFields 0 [], jpEncoderJson⟩ (fun _ _ => 0) [.eintr, .wrote 8, .wrote 3]))
      oneLine).map (fun final => (final.threads.reader.point, final.threads.writer,
        final.writer.sink.script, final.writer.records.map Record.encoded)) =
      some (.returned, .returned, [], [[0x61]]) := by decide
  obtain ⟨final, completed, seen⟩ := Option.map_eq_some_iff.mp ran
  simp only [Prod.mk.injEq] at seen
  obtain ⟨past, left, used, records⟩ := seen
  have sizes : final.writer.records.flatMap (entrySizes ⟨4, addFields 0 [], jpEncoderJson⟩) =
      [7, 1, 3] := by
    rw [List.map_eq_singleton_iff] at records
    obtain ⟨record, single, encoded⟩ := records
    rw [single, List.flatMap_singleton, entrySizes, encoded]
    decide
  have aligned : Aligned (counts [.eintr, .wrote 8, .wrote 3])
      (final.writer.records.flatMap (entrySizes ⟨4, addFields 0 [], jpEncoderJson⟩)) := by
    rw [sizes]
    intro taken
    rcases taken with _ | _ | taken
    · exact ⟨0, rfl⟩
    · exact ⟨2, rfl⟩
    · exact ⟨3, by simp [counts]⟩
  have back := (@output_reads_back 1 4 0 [] Nat.one_pos (by decide) (fun _ _ => 0)
    [.eintr, .wrote 8, .wrote 3] (by decide) (fun _ => []) [[0x61]] (by decide) (by decide)
    oneLine final completed used aligned).2 (by decide) ⟨past, left⟩
  exact ⟨final, completed, back⟩

end Runs

end JPipe
