import JPipe.Cutting
import JPipe.Json
import Mathlib.Data.List.Basic

/-!
# The writer loop

`jp_writer_produce` cuts the blocks it pops into records. The blocks the queue
delivers are a list; when it is used up, `jp_queue_pop_uncommitted` reports
`JP_ESHUTTING_DOWN`. Handing a finished record to `jp_file_writev` is a
parameter, so that the loop is read once for every behaviour of the descriptor.
An answer of `none` stands for a call that does not return.

The inner loop runs on fuel. It never runs out of it: with writes that succeed,
the loop over one block is the cutting of the block's bytes at newlines, where a
block shorter than the chunk size interrupts the stream after its last byte.
-/

namespace JPipe

/-- `jp_encoder_t`. -/
structure Encoder where
  prefixEncoder : FieldSet → List Byte
  valueEncoder : List Byte → Nat → List Byte
  postfixEncoder : FieldSet → List Byte
  escapingMul : Nat

/-- `jp_encoder_json`. -/
def jpEncoderJson : Encoder where
  prefixEncoder := jpJsonPrefixEncoder
  valueEncoder := jpJsonValueEncoder
  postfixEncoder := jpJsonPostfixEncoder
  escapingMul := jsonEscapeMul

/-- The part of `jp_writer_ctx_t` the loop reads, apart from the queue. -/
structure WriterCtx where
  chunkSize : Nat
  fields : FieldSet
  encoder : Encoder

/-- One record: the raw bytes handed to the value encoder and what it made of
them. -/
structure Record where
  payload : List Byte
  encoded : List Byte
deriving DecidableEq, Repr

/-- The writer inside its loops: the carried bytes, the records handed to the
descriptor so far, and the descriptor's side. -/
structure Writer (σ : Type) where
  overflow : List Byte
  records : List Record
  sink : σ

/-- `memchr`, as an index. -/
def memchr (text : List Byte) (byte : Byte) : Option Nat := text.idxOf? byte

/-- What one turn of the inner loop comes to: the raw payload of the record it
writes, if it writes one, and after it the carried bytes and the unread rest of
the block. -/
structure Turn where
  payload : Option (List Byte)
  overflow : List Byte
  rest : List Byte
deriving DecidableEq, Repr

/-- One turn of the inner loop of `jp_writer_produce`. -/
def innerTurn (chunkSize : Nat) (overflow rest : List Byte) : Turn :=
  let delimiter := memchr rest newline
  if overflow.length > 0 then
    let remainingLen := delimiter.getD rest.length
    let copyLen := min remainingLen (chunkSize - overflow.length)
    let filled := overflow ++ rest.take copyLen
    let left := rest.drop copyLen
    if delimiter.isSome || filled.length == chunkSize then
      { payload := some filled, overflow := [],
        rest := if delimiter == some copyLen then left.drop 1 else left }
    else { payload := none, overflow := filled, rest := left }
  else
    match delimiter with
    | none => { payload := none, overflow := rest, rest := [] }
    | some index =>
      { payload := some (rest.take index), overflow := [], rest := rest.drop (index + 1) }

/-- The record of a payload. -/
def recordOf (ctx : WriterCtx) (payload : List Byte) : Record where
  payload := payload
  encoded := ctx.encoder.valueEncoder payload (ctx.chunkSize * ctx.encoder.escapingMul)

section Loops

variable {σ : Type} (ctx : WriterCtx) (emit : σ → List Byte → Option (σ × Errno))

/-- Encode a payload and hand the record to the descriptor. -/
def writeRecord (writer : Writer σ) (payload : List Byte) : Option (Writer σ × Errno) :=
  (emit writer.sink (recordOf ctx payload).encoded).map fun (sink, err) =>
    ({ writer with records := writer.records ++ [recordOf ctx payload], sink := sink }, err)

/-- The inner loop over the unread rest of a block. -/
def innerLoop : Nat → Writer σ → List Byte → Option (Writer σ × Errno)
  | _, writer, [] => some (writer, .ok)
  | 0, _, _ :: _ => none
  | fuel + 1, writer, ch :: tail =>
    let turn := innerTurn ctx.chunkSize writer.overflow (ch :: tail)
    match turn.payload with
    | none => innerLoop fuel { writer with overflow := turn.overflow } turn.rest
    | some payload =>
      (writeRecord ctx emit writer payload).bind fun (written, err) =>
        if err = .ok then innerLoop fuel { written with overflow := turn.overflow } turn.rest
        else some (written, err)

/-- Turns enough for any block: each one reads on or empties the overflow. -/
def blockFuel (block : List Byte) : Nat := 2 * block.length + 1

/-- The outer loop over the blocks the queue delivers. -/
def outerLoop : Writer σ → List (List Byte) → Option (Writer σ × Errno)
  | writer, [] => some (writer, .eshuttingDown)
  | writer, block :: blocks =>
    (innerLoop ctx emit (blockFuel block) writer block).bind fun (carried, err) =>
      if err = .ok then outerLoop carried blocks else some (carried, err)

/-- `jp_writer_produce`, from the descriptor's side at the start. -/
def jpWriterProduce (sink : σ) (blocks : List (List Byte)) : Option (Writer σ × Errno) :=
  (outerLoop ctx emit { overflow := [], records := [], sink := sink } blocks).map
    fun (writer, err) => (writer, if jpQueueIsGracefulErr err then .ok else err)

end Loops

/-! ### One turn -/

/-- A found byte splits the text at its first occurrence. -/
theorem memchr_found {text : List Byte} {byte : Byte} {index : Nat}
    (found : memchr text byte = some index) :
    ∃ line tail, text = line ++ byte :: tail ∧ line.length = index ∧ byte ∉ line := by
  obtain ⟨inside, here, before⟩ := List.idxOf?_eq_some_iff.mp found
  refine ⟨text.take index, text.drop (index + 1), ?_, ?_, ?_⟩
  · rw [← here, ← List.drop_eq_getElem_cons, List.take_append_drop]
  · exact List.length_take_of_le (Nat.le_of_lt inside)
  · intro member
    obtain ⟨place, bound, same⟩ := List.mem_take_iff_getElem.mp member
    exact before place (by omega) same

/-- A found byte stands inside of the text. -/
theorem memchr_inside {text : List Byte} {byte : Byte} {index : Nat}
    (found : memchr text byte = some index) : index < text.length := by
  obtain ⟨line, tail, rfl, size, _⟩ := memchr_found found
  rw [List.length_append, List.length_cons]
  omega

/-- A byte that does not occur in front is found after. -/
theorem memchr_append {front : List Byte} {byte : Byte} (plain : byte ∉ front)
    (rest : List Byte) :
    memchr (front ++ rest) byte = (memchr rest byte).map (· + front.length) := by
  have absent : front.findIdx? (· == byte) = none := by
    simpa [List.idxOf?] using List.idxOf?_eq_none_iff.mpr plain
  simp only [memchr, List.idxOf?, List.findIdx?_append, absent, Option.none_or]

/-- What one turn owes to the cutting of the rest of the block. -/
structure TurnRefines (chunkSize : Nat) (short : Bool) (overflow rest : List Byte)
    (turn : Turn) : Prop where
  cut : Cutting.feed chunkSize newline overflow (Cutting.markLast short rest) =
    (turn.payload.toList ++
        (Cutting.feed chunkSize newline turn.overflow (Cutting.markLast short turn.rest)).1,
      (Cutting.feed chunkSize newline turn.overflow (Cutting.markLast short turn.rest)).2)
  carried : turn.overflow.length ≤ chunkSize
  apart : turn.overflow = [] ∨ turn.rest = []
  shorter : turn.rest.length ≤ rest.length
  progress : 2 * turn.rest.length + min turn.overflow.length 1 <
    2 * rest.length + min overflow.length 1

/-- Items not marked at all. -/
theorem feed_unmarked (chunkSize : Nat) (held line : List Byte) (plain : newline ∉ line)
    (fits : held.length + line.length ≤ chunkSize) :
    Cutting.feed chunkSize newline held (line.map (fun item => (item, false))) =
      ([], held ++ line) := by
  have items : (line.map (fun item => (item, false))).map Prod.fst = line := by
    simp [Function.comp_def]
  have fed := Cutting.feed_fitting chunkSize newline held (line.map (fun item => (item, false)))
    (by rw [items]; exact plain) (by simpa using fits) (by simp)
  rw [items] at fed
  exact fed

/-- A line that fits after the held bytes is given up with them at its newline. -/
theorem feed_line {chunkSize : Nat} (positive : 0 < chunkSize) (short : Bool)
    (held line tail : List Byte) (plain : newline ∉ line)
    (fits : held.length + line.length ≤ chunkSize) :
    Cutting.feed chunkSize newline held (Cutting.markLast short (line ++ newline :: tail)) =
      ((held ++ line) :: (Cutting.feed chunkSize newline [] (Cutting.markLast short tail)).1,
        (Cutting.feed chunkSize newline [] (Cutting.markLast short tail)).2) := by
  obtain ⟨mark, marks⟩ : ∃ mark, Cutting.markLast short (newline :: tail) =
      (newline, mark) :: Cutting.markLast short tail := by
    cases tail with
    | nil => exact ⟨short, rfl⟩
    | cons ch tail => exact ⟨false, rfl⟩
  rw [Cutting.mark_last_append, Cutting.feed_append, feed_unmarked chunkSize held line plain fits,
    marks, Cutting.feed_delimiter positive]
  rfl

/-- Bytes of a line that fill the held piece while the line goes on give up the
piece there. -/
theorem feed_filled {chunkSize : Nat} (positive : 0 < chunkSize) (short : Bool)
    (held line : List Byte) (ch : Byte) (tail : List Byte) (plain : newline ∉ line)
    (other : ch ≠ newline) (full : held.length + line.length = chunkSize) :
    Cutting.feed chunkSize newline held (Cutting.markLast short (line ++ ch :: tail)) =
      ((held ++ line) ::
          (Cutting.feed chunkSize newline [] (Cutting.markLast short (ch :: tail))).1,
        (Cutting.feed chunkSize newline [] (Cutting.markLast short (ch :: tail))).2) := by
  obtain ⟨mark, rest, marks⟩ : ∃ mark rest, Cutting.markLast short (ch :: tail) =
      (ch, mark) :: rest := by
    cases tail with
    | nil => exact ⟨short, [], rfl⟩
    | cons next tail => exact ⟨false, _, rfl⟩
  have size : (held ++ line).length = chunkSize := by rw [List.length_append, full]
  rw [Cutting.mark_last_append, Cutting.feed_append,
    feed_unmarked chunkSize held line plain (Nat.le_of_eq full), marks,
    Cutting.feed_full positive newline size other]
  rfl

/-- Bytes that fill the held piece at the end of a short block give it up. -/
theorem feed_completed {chunkSize : Nat} (held line : List Byte) (some : line ≠ [])
    (plain : newline ∉ line) (full : held.length + line.length = chunkSize) :
    Cutting.feed chunkSize newline held (Cutting.markLast true line) = ([held ++ line], []) := by
  obtain ⟨leading, last, rfl⟩ := line.eq_nil_or_concat'.resolve_left some
  simp only [List.mem_append, List.mem_singleton, not_or] at plain
  simp only [List.length_append, List.length_singleton] at full
  have other : last ≠ newline := fun equal => plain.2 equal.symm
  have room : ¬ (held ++ leading).length = chunkSize := by
    rw [List.length_append]
    omega
  have size : (held ++ (leading ++ [last])).length = chunkSize := by
    simp only [List.length_append, List.length_singleton]
    omega
  rw [Cutting.mark_last_append, Cutting.feed_append,
    feed_unmarked chunkSize held leading plain.1 (by omega)]
  simp only [Cutting.markLast, Cutting.feed, Cutting.accept, other, room, ↓reduceIte,
    Cutting.settle, List.append_assoc, size, and_self, List.nil_append, List.append_nil]

/-- The in-place path: nothing is carried. -/
theorem turn_in_place {chunkSize : Nat} (positive : 0 < chunkSize) (short : Bool)
    (rest : List Byte) (unread : rest ≠ []) (bounded : rest.length ≤ chunkSize)
    (quiet : rest.length = chunkSize → short = false) :
    TurnRefines chunkSize short [] rest (innerTurn chunkSize [] rest) := by
  have longer : 0 < rest.length := List.length_pos_iff.mpr unread
  cases found : memchr rest newline with
  | none =>
    have plain : newline ∉ rest := List.idxOf?_eq_none_iff.mp found
    have turn : innerTurn chunkSize [] rest = ⟨none, rest, []⟩ := by simp [innerTurn, found]
    have held : Cutting.feed chunkSize newline [] (Cutting.markLast short rest) = ([], rest) := by
      by_cases whole : rest.length = chunkSize
      · rw [quiet whole, Cutting.mark_last_quiet]
        exact feed_unmarked chunkSize [] rest plain (by simpa using bounded)
      · have size : (Cutting.markLast short rest).length = rest.length := by
          rw [← List.length_map Prod.fst, Cutting.mark_last_items]
        have fed := Cutting.feed_fitting chunkSize newline [] (Cutting.markLast short rest)
          (by simpa using plain) (by simpa [size] using bounded)
          (fun full => absurd full (by simpa [size] using whole))
        simpa using fed
    rw [turn]
    refine ⟨?_, bounded, Or.inr rfl, Nat.zero_le _, ?_⟩
    · simpa [Cutting.markLast, Cutting.feed] using held
    · simp only [List.length_nil]
      omega
  | some index =>
    obtain ⟨line, tail, rfl, size, plain⟩ := memchr_found found
    have turn : innerTurn chunkSize [] (line ++ newline :: tail) = ⟨some line, [], tail⟩ := by
      simp [innerTurn, found, ← size]
    simp only [List.length_append, List.length_cons] at bounded
    rw [turn]
    refine ⟨?_, Nat.zero_le _, Or.inl rfl, ?_, ?_⟩
    · exact feed_line positive short [] line tail plain (by simp; omega)
    · simp only [List.length_append, List.length_cons]
      omega
    · simp only [List.length_append, List.length_cons, List.length_nil]
      omega

/-- A turn on carried bytes that go on to fill the overflow inside a line writes
them, and reads the line up to there. -/
theorem inner_turn_filled {chunkSize : Nat} (overflow line : List Byte) (ch : Byte)
    (tail : List Byte) (carrying : overflow ≠ []) (plain : newline ∉ line) (other : ch ≠ newline)
    (full : overflow.length + line.length = chunkSize) :
    innerTurn chunkSize overflow (line ++ ch :: tail) =
      ⟨some (overflow ++ line), [], ch :: tail⟩ := by
  have carried : 0 < overflow.length := List.length_pos_iff.mpr carrying
  have room : chunkSize - overflow.length = line.length := by omega
  have later : newline ∉ line ++ [ch] := by simp [plain, other.symm]
  have search : memchr (line ++ ch :: tail) newline =
      (memchr tail newline).map (· + (line.length + 1)) := by
    rw [List.append_cons, memchr_append later, List.length_append, List.length_singleton]
  cases found : memchr tail newline with
  | none => simp [innerTurn, search, found, carried, room, full]
  | some index =>
    have copied : min (index + (line.length + 1)) line.length = line.length :=
      Nat.min_eq_right (by omega)
    have beyond : ¬ index + (line.length + 1) = line.length := by omega
    simp [innerTurn, search, found, carried, room, copied, beyond]

/-- A turn on a carried piece that the block fills up to the capacity, with a byte other
than the newline behind it, gives up the piece where the cutting does. -/
theorem turn_filled {chunkSize : Nat} (positive : 0 < chunkSize) (short : Bool)
    (overflow line : List Byte) (ch : Byte) (tail : List Byte) (carrying : overflow ≠ [])
    (plain : newline ∉ line) (other : ch ≠ newline)
    (full : overflow.length + line.length = chunkSize) :
    TurnRefines chunkSize short overflow (line ++ ch :: tail)
      (innerTurn chunkSize overflow (line ++ ch :: tail)) := by
  have carried : 0 < overflow.length := List.length_pos_iff.mpr carrying
  rw [inner_turn_filled overflow line ch tail carrying plain other full]
  refine ⟨?_, Nat.zero_le _, Or.inl rfl, ?_, ?_⟩
  · exact feed_filled positive short overflow line ch tail plain other full
  · simp only [List.length_append, List.length_cons]
    omega
  · simp only [List.length_append, List.length_cons, List.length_nil]
    omega

/-- The carry-over path.

A line with its newline in the block is completed, unless it overruns the
overflow; without a newline the bytes are carried on, unless they reach the
chunk size: after the block's last byte or, again, by overrunning it. -/
theorem turn_carried {chunkSize : Nat} (positive : 0 < chunkSize) (short : Bool)
    (overflow rest : List Byte) (carrying : overflow ≠ []) (unread : rest ≠ [])
    (bounded : overflow.length ≤ chunkSize) (eager : rest.length < chunkSize → short = true) :
    TurnRefines chunkSize short overflow rest (innerTurn chunkSize overflow rest) := by
  have carried : 0 < overflow.length := List.length_pos_iff.mpr carrying
  have longer : 0 < rest.length := List.length_pos_iff.mpr unread
  have overrun (front after : List Byte) (plain : newline ∉ front) (split : front ++ after = rest)
      (overlong : chunkSize < overflow.length + front.length) :
      TurnRefines chunkSize short overflow rest (innerTurn chunkSize overflow rest) := by
    have inside : chunkSize - overflow.length < front.length := by omega
    have parts : front = front.take (chunkSize - overflow.length) ++
        front[chunkSize - overflow.length] :: front.drop (chunkSize - overflow.length + 1) := by
      rw [← List.drop_eq_getElem_cons inside, List.take_append_drop]
    have other : front[chunkSize - overflow.length] ≠ newline := by
      intro equal
      exact plain (equal ▸ List.getElem_mem inside)
    have plainTaken : newline ∉ front.take (chunkSize - overflow.length) := by
      intro member
      exact plain (List.mem_of_mem_take member)
    rw [← split, parts, List.append_assoc, List.cons_append]
    exact turn_filled positive short overflow _ _ _ carrying plainTaken other
      (by rw [List.length_take]; omega)
  cases found : memchr rest newline with
  | none =>
    have plain : newline ∉ rest := List.idxOf?_eq_none_iff.mp found
    by_cases fits : overflow.length + rest.length ≤ chunkSize
    · have copied : min rest.length (chunkSize - overflow.length) = rest.length := by omega
      by_cases full : overflow.length + rest.length = chunkSize
      · have turn : innerTurn chunkSize overflow rest = ⟨some (overflow ++ rest), [], []⟩ := by
          simp [innerTurn, found, carried, copied, full]
        have marked : short = true := eager (by omega)
        rw [turn, marked]
        refine ⟨?_, Nat.zero_le _, Or.inl rfl, Nat.zero_le _, ?_⟩
        · exact feed_completed overflow rest unread plain full
        · simp only [List.length_nil]
          omega
      · have turn : innerTurn chunkSize overflow rest = ⟨none, overflow ++ rest, []⟩ := by
          simp [innerTurn, found, carried, copied, full]
        have size : (Cutting.markLast short rest).length = rest.length := by
          rw [← List.length_map Prod.fst, Cutting.mark_last_items]
        have fed := Cutting.feed_fitting chunkSize newline overflow (Cutting.markLast short rest)
          (by simpa using plain) (by simpa [size] using fits)
          (fun whole => absurd whole (by simpa [size] using full))
        rw [turn]
        refine ⟨?_, ?_, Or.inr rfl, Nat.zero_le _, ?_⟩
        · simpa [Cutting.markLast, Cutting.feed] using fed
        · simpa using fits
        · simp only [List.length_append, List.length_nil]
          omega
    · exact overrun rest [] plain (List.append_nil rest) (by omega)
  | some index =>
    obtain ⟨line, tail, rfl, size, plain⟩ := memchr_found found
    by_cases fits : overflow.length + line.length ≤ chunkSize
    · have copied : min line.length (chunkSize - overflow.length) = line.length := by omega
      have turn : innerTurn chunkSize overflow (line ++ newline :: tail) =
          ⟨some (overflow ++ line), [], tail⟩ := by
        simp [innerTurn, found, ← size, carried, copied]
      rw [turn]
      refine ⟨?_, Nat.zero_le _, Or.inl rfl, ?_, ?_⟩
      · exact feed_line positive short overflow line tail plain fits
      · simp only [List.length_append, List.length_cons]
        omega
      · simp only [List.length_append, List.length_cons, List.length_nil]
        omega
    · exact overrun line (newline :: tail) plain rfl (by omega)

/-! ### Whole blocks and whole runs -/

/-- The blocks a queue of this chunk size can deliver. -/
def BlocksFit (chunkSize : Nat) (blocks : List (List Byte)) : Prop :=
  ∀ block ∈ blocks, 0 < block.length ∧ block.length ≤ chunkSize

instance (chunkSize : Nat) (blocks : List (List Byte)) : Decidable (BlocksFit chunkSize blocks) :=
  inferInstanceAs (Decidable (∀ block ∈ blocks, 0 < block.length ∧ block.length ≤ chunkSize))

/-- The records of a stream of blocks: the pieces of its cutting, encoded. -/
def recordsOf (ctx : WriterCtx) (blocks : List (List Byte)) : List Record :=
  (Cutting.feed ctx.chunkSize newline [] (Cutting.markBlocks ctx.chunkSize blocks)).1.map
    (recordOf ctx)

section Runs

variable {σ : Type} (ctx : WriterCtx) (emit : σ → List Byte → Option (σ × Errno))

/-- Hand records to the descriptor in order, up to the first error: those handed
over, the descriptor's side afterwards and the last answer. -/
def emitRecords : σ → List Record → Option (List Record × σ × Errno)
  | sink, [] => some ([], sink, .ok)
  | sink, record :: rest =>
    (emit sink record.encoded).bind fun (next, err) =>
      if err = .ok then
        (emitRecords next rest).map fun (done, final, err) => (record :: done, final, err)
      else some ([record], next, err)

/-- What handing over records can come to: none are left, the descriptor refuses the
first, or it takes the first and the others follow. -/
inductive Handing : σ → List Record → List Record → σ → Errno → Prop where
  | nothing (sink : σ) : Handing sink [] [] sink .ok
  | refused (sink : σ) (record : Record) (rest : List Record) (next : σ) (err : Errno)
      (written : emit sink record.encoded = some (next, err)) (failed : err ≠ .ok) :
      Handing sink (record :: rest) [record] next err
  | taken (sink : σ) (record : Record) (rest : List Record) (next : σ) (done : List Record)
      (final : σ) (err : Errno) (written : emit sink record.encoded = some (next, .ok))
      (others : Handing next rest done final err) :
      Handing sink (record :: rest) (record :: done) final err

/-- Every call that returns comes to one of these. -/
theorem emit_handing {emit : σ → List Byte → Option (σ × Errno)} {sink final : σ}
    {records done : List Record} {err : Errno}
    (emitted : emitRecords emit sink records = some (done, final, err)) :
    Handing emit sink records done final err := by
  induction records generalizing sink done with
  | nil =>
    simp only [emitRecords, Option.some.injEq, Prod.mk.injEq] at emitted
    obtain ⟨rfl, rfl, rfl⟩ := emitted
    exact .nothing sink
  | cons record rest ih =>
    obtain ⟨⟨next, last⟩, written, following⟩ := Option.bind_eq_some_iff.mp emitted
    by_cases succeeded : last = .ok
    · simp only [succeeded, ↓reduceIte] at following
      obtain ⟨⟨others, ended, status⟩, further, same⟩ := Option.map_eq_some_iff.mp following
      obtain ⟨rfl, rfl, rfl⟩ : record :: others = done ∧ ended = final ∧ status = err := by
        simpa using same
      exact .taken sink record rest next others ended status (succeeded ▸ written) (ih further)
    · simp only [succeeded, ↓reduceIte, Option.some.injEq, Prod.mk.injEq] at following
      obtain ⟨rfl, rfl, rfl⟩ := following
      exact .refused sink record rest next last written succeeded

/-- Handing over two lists of records is handing over the first and, if that
succeeds, the second. -/
theorem emit_records_append (sink : σ) (first second : List Record) :
    emitRecords emit sink (first ++ second) =
      (emitRecords emit sink first).bind fun (done, middle, err) =>
        if err = .ok then
          (emitRecords emit middle second).map fun (more, final, err) => (done ++ more, final, err)
        else some (done, middle, err) := by
  induction first generalizing sink with
  | nil =>
    simp [emitRecords]
  | cons record rest ih =>
    simp only [List.cons_append, emitRecords]
    cases emit sink record.encoded with
    | none => rfl
    | some answer =>
      obtain ⟨next, err⟩ := answer
      by_cases succeeded : err = .ok
      · simp only [succeeded, ↓reduceIte, Option.bind_some, ih]
        cases emitRecords emit next rest with
        | none => rfl
        | some following =>
          obtain ⟨done, middle, last⟩ := following
          by_cases going : last = .ok
          · simp [going, Function.comp_def]
          · simp [going]
      · simp [succeeded]

/-- What a run leaves behind: the records handed over, the descriptor's side and
the status. -/
def outcome (result : Writer σ × Errno) : List Record × σ × Errno :=
  (result.1.records, result.1.sink, result.2)

/-- What the inner loop owes to the cutting of what it reads: it hands over the
pieces in order, and unless an error ends it, it carries what is held. -/
structure LoopRefines (writer : Writer σ) (cut : List (List Byte) × List Byte)
    (result : Option (Writer σ × Errno)) : Prop where
  emits : result.map outcome = (emitRecords emit writer.sink (cut.1.map (recordOf ctx))).map
    fun (done, sink, err) => (writer.records ++ done, sink, err)
  carries : ∀ final, result = some (final, .ok) →
    final.overflow = cut.2 ∧ final.overflow.length ≤ ctx.chunkSize

/-- With nothing left to read the loop stops as it is. -/
theorem loop_finished (writer : Writer σ) (carried : writer.overflow.length ≤ ctx.chunkSize) :
    LoopRefines ctx emit writer ([], writer.overflow) (some (writer, .ok)) := by
  refine ⟨by simp [emitRecords, outcome], ?_⟩
  intro final same
  simp only [Option.some.injEq, Prod.mk.injEq, and_true] at same
  exact same ▸ ⟨rfl, carried⟩

/-- From the unread rest of a block, the inner loop cuts it and hands the pieces
over.

Induct on the fuel. Bytes are carried only at the front of a block, so after
the first turn a nonempty rest meets the in-place path. -/
theorem inner_loop_refines (positive : 0 < ctx.chunkSize) (short : Bool) (fuel : Nat)
    (writer : Writer σ) (rest : List Byte) (carried : writer.overflow.length ≤ ctx.chunkSize)
    (bounded : rest.length ≤ ctx.chunkSize) (quiet : rest.length = ctx.chunkSize → short = false)
    (eager : writer.overflow ≠ [] → rest ≠ [] → rest.length < ctx.chunkSize → short = true)
    (enough : 2 * rest.length + min writer.overflow.length 1 ≤ fuel) :
    LoopRefines ctx emit writer (Cutting.feed ctx.chunkSize newline writer.overflow
      (Cutting.markLast short rest)) (innerLoop ctx emit fuel writer rest) := by
  induction fuel generalizing writer rest with
  | zero =>
    obtain rfl : rest = [] := List.length_eq_zero_iff.mp (by omega)
    exact loop_finished ctx emit writer carried
  | succ fuel ih =>
    cases rest with
    | nil => exact loop_finished ctx emit writer carried
    | cons ch tail =>
      have refined : TurnRefines ctx.chunkSize short writer.overflow (ch :: tail)
          (innerTurn ctx.chunkSize writer.overflow (ch :: tail)) := by
        by_cases fresh : writer.overflow = []
        · rw [fresh]
          exact turn_in_place positive short _ (List.cons_ne_nil ch tail) bounded quiet
        · exact turn_carried positive short _ _ fresh (List.cons_ne_nil ch tail) carried
            (eager fresh (List.cons_ne_nil ch tail))
      rw [innerLoop]
      generalize innerTurn ctx.chunkSize writer.overflow (ch :: tail) = turn at refined ⊢
      have quietLeft : turn.rest.length = ctx.chunkSize → short = false := by
        intro whole
        exact quiet (Nat.le_antisymm bounded (whole ▸ refined.shorter))
      have eagerLeft : turn.overflow ≠ [] → turn.rest ≠ [] → turn.rest.length < ctx.chunkSize →
          short = true := by
        intro carrying unread _
        cases refined.apart with
        | inl none => exact absurd none carrying
        | inr none => exact absurd none unread
      have boundedLeft : turn.rest.length ≤ ctx.chunkSize := Nat.le_trans refined.shorter bounded
      have enoughLeft : 2 * turn.rest.length + min turn.overflow.length 1 ≤ fuel := by
        have progress := refined.progress
        omega
      have following (next : Writer σ) (overflow : next.overflow = turn.overflow) :
          LoopRefines ctx emit next (Cutting.feed ctx.chunkSize newline turn.overflow
            (Cutting.markLast short turn.rest)) (innerLoop ctx emit fuel next turn.rest) := by
        rw [← overflow] at eagerLeft enoughLeft ⊢
        exact ih next turn.rest (overflow ▸ refined.carried) boundedLeft quietLeft eagerLeft
          enoughLeft
      rw [refined.cut]
      cases written : turn.payload with
      | none =>
        have looped := following { writer with overflow := turn.overflow } rfl
        exact ⟨looped.emits, looped.carries⟩
      | some payload =>
        simp only [writeRecord]
        cases emitted : emit writer.sink (recordOf ctx payload).encoded with
        | none => exact ⟨by simp [emitRecords, emitted], by simp⟩
        | some answer =>
          obtain ⟨next, err⟩ := answer
          by_cases succeeded : err = .ok
          · have looped := following
              ⟨turn.overflow, writer.records ++ [recordOf ctx payload], next⟩ rfl
            refine ⟨?_, ?_⟩
            · simpa [emitRecords, emitted, succeeded, Function.comp_def] using looped.emits
            · simpa [succeeded] using looped.carries
          · exact ⟨by simp [emitRecords, emitted, succeeded, outcome], by simp [succeeded]⟩

/-- Over the blocks of a run, the outer loop hands over the pieces of the stream. -/
theorem outer_loop_refines (positive : 0 < ctx.chunkSize) (blocks : List (List Byte))
    (fit : BlocksFit ctx.chunkSize blocks) (writer : Writer σ)
    (carried : writer.overflow.length ≤ ctx.chunkSize) :
    (outerLoop ctx emit writer blocks).map outcome =
      (emitRecords emit writer.sink ((Cutting.feed ctx.chunkSize newline writer.overflow
        (Cutting.markBlocks ctx.chunkSize blocks)).1.map (recordOf ctx))).map
      fun (done, sink, err) =>
        (writer.records ++ done, sink, if err = .ok then .eshuttingDown else err) := by
  induction blocks generalizing writer with
  | nil => simp [outerLoop, outcome, Cutting.markBlocks, Cutting.feed, emitRecords]
  | cons block rest ih =>
    have bounded : block.length ≤ ctx.chunkSize := (fit block List.mem_cons_self).2
    have looped := inner_loop_refines ctx emit positive (decide (block.length < ctx.chunkSize))
      (blockFuel block) writer block carried bounded (by simp; omega) (by simp)
      (by rw [blockFuel]; omega)
    have parts : Cutting.feed ctx.chunkSize newline writer.overflow
          (Cutting.markBlocks ctx.chunkSize (block :: rest)) =
        Cutting.feed ctx.chunkSize newline writer.overflow
          (Cutting.markLast (decide (block.length < ctx.chunkSize)) block ++
            Cutting.markBlocks ctx.chunkSize rest) := by
      rw [Cutting.markBlocks, List.flatMap_cons]
      rfl
    rw [parts, Cutting.feed_append, List.map_append, emit_records_append, outerLoop]
    generalize Cutting.feed ctx.chunkSize newline writer.overflow
      (Cutting.markLast (decide (block.length < ctx.chunkSize)) block) = cut at looped ⊢
    have emits := looped.emits
    have carries := looped.carries
    cases emitted : emitRecords emit writer.sink (cut.1.map (recordOf ctx)) with
    | none =>
      have stuck : innerLoop ctx emit (blockFuel block) writer block = none := by
        simpa [emitted] using emits
      simp [stuck]
    | some answer =>
      obtain ⟨done, sink, err⟩ := answer
      rw [emitted, Option.map_some] at emits
      obtain ⟨⟨middle, last⟩, ran, same⟩ := Option.map_eq_some_iff.mp emits
      obtain ⟨records, rfl, rfl⟩ : middle.records = writer.records ++ done ∧ middle.sink = sink ∧
          last = err := by simpa [outcome] using same
      by_cases succeeded : last = .ok
      · obtain ⟨held, bound⟩ := carries middle (by rw [ran, succeeded])
        have following := ih (fun other member => fit other (List.mem_cons_of_mem block member))
          middle bound
        rw [held, records] at following
        simp only [ran, succeeded, Option.bind_some, ↓reduceIte, following, Option.map_map,
          Function.comp_def, List.append_assoc]
      · simp [ran, succeeded, outcome, records]

/-- The whole run of the writer is the cutting of its blocks and the handing over
of the pieces. -/
theorem writer_refines_cutting (sink : σ) (blocks : List (List Byte))
    (fit : BlocksFit ctx.chunkSize blocks) :
    (jpWriterProduce ctx emit sink blocks).map outcome =
      (emitRecords emit sink (recordsOf ctx blocks)).map fun (done, final, err) =>
        (done, final, if jpQueueIsGracefulErr err then .ok else err) := by
  cases blocks with
  | nil => rfl
  | cons block rest =>
    have sized := fit block List.mem_cons_self
    have looped := outer_loop_refines ctx emit (by omega) (block :: rest) fit ⟨[], [], sink⟩
      (Nat.zero_le _)
    have cleaned : (jpWriterProduce ctx emit sink (block :: rest)).map outcome =
        ((outerLoop ctx emit ⟨[], [], sink⟩ (block :: rest)).map outcome).map
          fun (done, final, err) => (done, final, if jpQueueIsGracefulErr err then .ok else err) := by
      rw [jpWriterProduce, Option.map_map, Option.map_map]
      rfl
    rw [cleaned, looped, Option.map_map]
    apply congrArg (fun clean => Option.map clean _)
    funext ⟨done, final, err⟩
    by_cases succeeded : err = .ok
    · simp [succeeded, jpQueueIsGracefulErr]
    · simp [succeeded]

/-- Every write succeeds. -/
def WritesSucceed (emit : σ → List Byte → Option (σ × Errno)) : Prop :=
  ∀ sink encoded, ∃ next, emit sink encoded = some (next, .ok)

/-- When every write succeeds the writer returns 0, and all records are handed over. -/
theorem writer_completes (succeeds : WritesSucceed emit) (sink : σ) (blocks : List (List Byte))
    (fit : BlocksFit ctx.chunkSize blocks) :
    ∃ final, jpWriterProduce ctx emit sink blocks = some (final, .ok) ∧
      final.records = recordsOf ctx blocks ∧
      emitRecords emit sink final.records = some (final.records, final.sink, .ok) := by
  have emitted (records : List Record) (sink : σ) :
      ∃ final, emitRecords emit sink records = some (records, final, .ok) := by
    induction records generalizing sink with
    | nil => exact ⟨sink, rfl⟩
    | cons record rest ih =>
      obtain ⟨next, written⟩ := succeeds sink record.encoded
      obtain ⟨final, following⟩ := ih next
      exact ⟨final, by simp [emitRecords, written, following]⟩
  obtain ⟨last, written⟩ := emitted (recordsOf ctx blocks) sink
  have refined := writer_refines_cutting ctx emit sink blocks fit
  rw [written, Option.map_some] at refined
  obtain ⟨⟨final, err⟩, produced, same⟩ := Option.map_eq_some_iff.mp refined
  obtain ⟨records, rfl, rfl⟩ : final.records = recordsOf ctx blocks ∧ final.sink = last ∧
      err = .ok := by simpa [outcome, jpQueueIsGracefulErr] using same
  exact ⟨final, produced, records, records.symm ▸ written⟩

/-- What is handed over is a start of the records. -/
theorem emitted_starts (records : List Record) (sink : σ) {done : List Record} {last : σ}
    {err : Errno} (emitted : emitRecords emit sink records = some (done, last, err)) :
    done <+: records := by
  induction records generalizing sink done with
  | nil =>
    simp only [emitRecords, Option.some.injEq, Prod.mk.injEq] at emitted
    exact emitted.1 ▸ List.prefix_rfl
  | cons record rest ih =>
    rw [emitRecords] at emitted
    obtain ⟨⟨next, answer⟩, _, following⟩ := Option.bind_eq_some_iff.mp emitted
    by_cases succeeded : answer = .ok
    · simp only [succeeded, ↓reduceIte, Option.map_eq_some_iff] at following
      obtain ⟨⟨more, final, other⟩, handed, same⟩ := following
      obtain ⟨rfl, rfl, rfl⟩ : record :: more = done ∧ final = last ∧ other = err := by
        simpa using same
      exact List.cons_prefix_cons.mpr ⟨rfl, ih next handed⟩
    · simp only [succeeded, ↓reduceIte, Option.some.injEq, Prod.mk.injEq] at following
      rw [← following.1]
      exact List.cons_prefix_cons.mpr ⟨rfl, List.nil_prefix⟩

/-- Whatever the descriptor answers, the records written are a start of the records of
the cutting. -/
theorem records_start {sink : σ} {blocks : List (List Byte)} (fit : BlocksFit ctx.chunkSize blocks)
    {final : Writer σ} {err : Errno}
    (produced : jpWriterProduce ctx emit sink blocks = some (final, err)) :
    final.records <+: recordsOf ctx blocks := by
  have refined := writer_refines_cutting ctx emit sink blocks fit
  rw [produced, Option.map_some] at refined
  obtain ⟨⟨done, last, answer⟩, emitted, same⟩ := Option.map_eq_some_iff.mp refined.symm
  obtain ⟨rfl, _⟩ : done = final.records ∧ _ := by simpa [outcome] using same
  exact emitted_starts emit (recordsOf ctx blocks) sink emitted

end Runs

end JPipe
