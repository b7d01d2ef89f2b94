import JPipe.Allocation
import JPipe.Writer

/-!
# The buffers of the writer

`JPipe.Writer` has the carried bytes and the unread rest of a block as lists.
Here `jp_writer_produce` has its pointers and its buffers: the carried bytes are
the first `length` cells of an overflow buffer of the chunk size, `start_ptr` and
the delimiter are positions in the block, and values are encoded into a buffer of
`chunk_size * JP_JSON_ESCAPE_MUL` cells. Every access is checked against its
buffer and every difference of pointers or lengths against zero; failing a check
is an outcome of its own, apart from going on and from leaving the loops.

With a block no longer than a chunk, an iteration passes every check and is the
turn of the list model. The other facts about an iteration are read off the turn.
-/

namespace JPipe

variable {chunkSize : Nat}

/-- The locals of `jp_writer_produce`, `startPtr` counting from the start of the
block, and the records handed to `jp_file_writev` so far. -/
structure Producing (chunkSize : Nat) where
  overflow : Region Byte chunkSize
  length : Nat
  encodedValue : Region Byte (chunkSize * jsonEscapeMul)
  block : List Byte
  startPtr : Nat
  records : List Record

/-- `end_ptr`. -/
def Producing.endPtr (state : Producing chunkSize) : Nat := state.block.length

/-- How an iteration goes on: at the head of the loop again, or with a call of
`jp_file_writev`, and after its success at the head of the loop. -/
inductive Iteration (chunkSize : Nat) where
  | continues (next : Producing chunkSize)
  | writes (record : Record) (asked next : Producing chunkSize)

/-- The state with a value encoded and its record handed over. -/
def Producing.handing (state : Producing chunkSize) (record : Record)
    (encodedValue : Region Byte (chunkSize * jsonEscapeMul)) : Producing chunkSize :=
  { state with encodedValue, records := state.records ++ [record] }

/-- The call of the value encoder, and the record that `iov` then holds. -/
def Producing.encode (state : Producing chunkSize) (src : List Byte) :
    Option (Record × Producing chunkSize) := do
  let (encodedValue, iovLen) ←
    jpJsonValueEncoderInto src state.encodedValue 0 (chunkSize * jsonEscapeMul)
  let encoded ← encodedValue.read 0 iovLen
  let record : Record := { payload := src, encoded }
  some (record, state.handing record encodedValue)

/-- The overflow buffer is written as a record and emptied. -/
def Producing.flush (state : Producing chunkSize) (delimiter : Option Nat) :
    Option (Iteration chunkSize) := do
  let src ← state.overflow.read 0 state.length
  let (record, asked) ← state.encode src
  let startPtr := if delimiter = some asked.startPtr then asked.startPtr + 1 else asked.startPtr
  some (.writes record asked { asked with length := 0, startPtr })

/-- The state with bytes of the block copied behind the carried ones. -/
def Producing.filling (state : Producing chunkSize) (overflow : Region Byte chunkSize)
    (copyLen : Nat) : Producing chunkSize :=
  { state with overflow, length := state.length + copyLen, startPtr := state.startPtr + copyLen }

/-- The branch of an iteration with bytes carried. -/
def Producing.carry (state : Producing chunkSize) (delimiter : Option Nat) :
    Option (Iteration chunkSize) := do
  let remainingLen ← Region.distance (delimiter.getD state.endPtr) state.startPtr
  let room ← Region.distance chunkSize state.length
  let copyLen := min remainingLen room
  let copied ← (Region.of state.block).read state.startPtr copyLen
  let overflow ← state.overflow.write state.length copied
  let filled := state.filling overflow copyLen
  if delimiter.isSome || filled.length == chunkSize then filled.flush delimiter
  else some (.continues filled)

/-- The branch without a delimiter: the rest of the block is kept. -/
def Producing.keep (state : Producing chunkSize) : Option (Iteration chunkSize) := do
  let remaining ← Region.distance state.endPtr state.startPtr
  let copied ← (Region.of state.block).read state.startPtr remaining
  let overflow ← state.overflow.write 0 copied
  some (.continues { state with overflow, length := remaining, startPtr := state.endPtr })

/-- The branch of a line that stands whole in the block. -/
def Producing.inPlace (state : Producing chunkSize) (delimiter : Nat) :
    Option (Iteration chunkSize) := do
  let srcLen ← Region.distance delimiter state.startPtr
  let src ← (Region.of state.block).read state.startPtr srcLen
  let (record, asked) ← state.encode src
  some (.writes record asked { asked with startPtr := delimiter + 1 })

/-- One iteration of the inner loop, up to the call of `jp_file_writev`. It has no
result when it accesses a buffer outside or when a difference is negative. -/
def Producing.iteration (state : Producing chunkSize) : Option (Iteration chunkSize) := do
  let left ← Region.distance state.endPtr state.startPtr
  let text ← (Region.of state.block).read state.startPtr left
  let delimiter := (memchr text newline).map fun index => state.startPtr + index
  if state.length > 0 then state.carry delimiter
  else
    match delimiter with
    | none => state.keep
    | some delimiter => state.inPlace delimiter

/-- Where `jp_writer_produce` stands: at the head of the inner loop, after its
loops, or beyond one of its buffers. -/
inductive Produce (chunkSize : Nat) where
  | running (state : Producing chunkSize)
  | left (err : Errno) (state : Producing chunkSize)
  | outside

/-- `jp_queue_pop_uncommitted` returns a block or an error, or the inner loop
makes an iteration; what `jp_file_writev` answers is used if it is called. -/
inductive ProduceLabel where
  | popped (block : List Byte)
  | refused (err : Errno)
  | iterate (answer : Errno)
deriving DecidableEq

/-- What an iteration comes to, with this answer of `jp_file_writev`. -/
def Producing.iterated (state : Producing chunkSize) (answer : Errno) : Produce chunkSize :=
  match state.iteration with
  | none => .outside
  | some (.continues next) => .running next
  | some (.writes _ asked next) => if answer = .ok then .running next else .left answer asked

/-- The loops of `jp_writer_produce`. A block is popped when the one before it is
used up. -/
def Produce.step : Produce chunkSize → ProduceLabel → Option (Produce chunkSize)
  | .running state, .popped block =>
    if state.startPtr < state.endPtr then none
    else some (.running { state with block, startPtr := 0 })
  | .running state, .refused err =>
    if state.startPtr < state.endPtr ∨ err = .ok then none else some (.left err state)
  | .running state, .iterate answer =>
    if state.startPtr < state.endPtr then some (state.iterated answer) else none
  | .left _ _, _ => none
  | .outside, _ => none

/-- Before the first block, with whatever the allocated buffers contain. -/
def Produce.begin (overflow : Region Byte chunkSize)
    (encodedValue : Region Byte (chunkSize * jsonEscapeMul)) : Produce chunkSize :=
  .running { overflow, length := 0, encodedValue, block := [], startPtr := 0, records := [] }

/-! ### An iteration is a turn -/

/-- The buffer begins with the carried bytes, and `start_ptr` stands before the rest. -/
structure Producing.Represents (state : Producing chunkSize) (overflow rest : List Byte) :
    Prop where
  carried : state.overflow.Holds overflow
  length : state.length = overflow.length
  unread : state.block.drop state.startPtr = rest
  ordered : state.startPtr ≤ state.endPtr

/-- Positions within the bounds represent something. -/
theorem represents_self {state : Producing chunkSize} (bounded : state.length ≤ chunkSize)
    (ordered : state.startPtr ≤ state.endPtr) :
    state.Represents (state.overflow.cells.take state.length)
      (state.block.drop state.startPtr) := by
  refine ⟨Region.holds_take state.overflow state.length, ?_, rfl, ordered⟩
  rw [List.length_take, state.overflow.sized, Nat.min_eq_left bounded]

theorem represents_bounded {state : Producing chunkSize} {overflow rest : List Byte}
    (represents : state.Represents overflow rest) : state.length ≤ chunkSize := by
  rw [represents.length]
  exact Region.holds_length represents.carried

theorem represents_rest_length {state : Producing chunkSize} {overflow rest : List Byte}
    (represents : state.Represents overflow rest) :
    state.startPtr + rest.length = state.endPtr := by
  have ordered := represents.ordered
  rw [← represents.unread, List.length_drop, Producing.endPtr] at *
  omega

/-- The loop goes on while something is unread. -/
theorem represents_unread {state : Producing chunkSize} {overflow rest : List Byte}
    (represents : state.Represents overflow rest) :
    state.startPtr < state.endPtr ↔ rest ≠ [] := by
  have length := represents_rest_length represents
  rw [← List.length_pos_iff]
  omega

theorem represents_short {state : Producing chunkSize} {overflow rest : List Byte}
    (represents : state.Represents overflow rest) (fits : state.block.length ≤ chunkSize) :
    rest.length ≤ chunkSize := by
  have length := represents_rest_length represents
  rw [Producing.endPtr] at length
  omega

/-- The next bytes of a block are read from where `start_ptr` stands. -/
theorem represents_read {state : Producing chunkSize} {overflow rest : List Byte}
    (represents : state.Represents overflow rest) {count : Nat} (within : count ≤ rest.length) :
    (Region.of state.block).read state.startPtr count = some (rest.take count) := by
  have length := represents_rest_length represents
  rw [Producing.endPtr] at length
  rw [Region.read_of (by omega), represents.unread]

/-- The record of a source that was encoded to its end. -/
def wholeRecord (src : List Byte) : Record where
  payload := src
  encoded := src.flatMap escaped

/-- A source that fits into a chunk is encoded whole, within the buffer for values. -/
theorem encode_whole (state : Producing chunkSize) {src : List Byte}
    (short : src.length ≤ chunkSize) :
    ∃ encodedValue, state.encode src =
      some (wholeRecord src, state.handing (wholeRecord src) encodedValue) := by
  have roomy : jpJsonValueEncoder src (chunkSize * jsonEscapeMul) = src.flatMap escaped :=
    value_encoder_whole short
  have bound : (src.flatMap escaped).length ≤ chunkSize * jsonEscapeMul :=
    Nat.le_trans (escaped_text_bound src) (Nat.mul_le_mul_right jsonEscapeMul short)
  obtain ⟨encodedValue, encoded, holds⟩ := value_encoder_into src (chunkSize * jsonEscapeMul)
    state.encodedValue [] (Region.holds_nil _) (by
      rw [roomy, List.length_nil, Nat.zero_add]
      exact bound)
  rw [roomy, List.length_nil] at encoded
  rw [roomy, List.nil_append] at holds
  refine ⟨encodedValue, ?_⟩
  simp only [Producing.encode, encoded, Region.read_holds holds, Option.bind_eq_bind,
    Option.bind_some, wholeRecord]

/-- Going on without a record, as the turn says. -/
structure Continues (block : List Byte) (records : List Record) (turn : Turn)
    (next : Producing chunkSize) : Prop where
  payload : turn.payload = none
  represents : next.Represents turn.overflow turn.rest
  block : next.block = block
  records : next.records = records

/-- Writing the record of the turn: it was encoded from a source no longer than a
chunk and to its end, and when it is written the iteration goes on as the turn says. -/
structure Writes (block : List Byte) (records : List Record) (turn : Turn) (record : Record)
    (asked next : Producing chunkSize) : Prop where
  payload : turn.payload = some record.payload
  short : record.payload.length ≤ chunkSize
  whole : record.encoded = record.payload.flatMap escaped
  bounded : asked.length ≤ chunkSize
  ordered : asked.startPtr ≤ asked.endPtr
  emitted : asked.records = records ++ [record]
  represents : next.Represents turn.overflow turn.rest
  block : next.block = block
  records : next.records = records ++ [record]

/-- The iteration, from this block and after these records, is the turn. -/
def Iteration.Follows (block : List Byte) (records : List Record) (turn : Turn) :
    Iteration chunkSize → Prop
  | .continues next => Continues block records turn next
  | .writes record asked next => Writes block records turn record asked next

/-- Flushing writes what the buffer holds, and steps over a delimiter that is next. -/
theorem flush_follows {state : Producing chunkSize} {filled left : List Byte}
    (represents : state.Represents filled left) (delimiter : Option Nat)
    (unread : delimiter = some state.startPtr → left ≠ []) :
    ∃ iteration, state.flush delimiter = some iteration ∧
      iteration.Follows state.block state.records {
        payload := some filled
        overflow := []
        rest := if delimiter = some state.startPtr then left.drop 1 else left } := by
  have short : filled.length ≤ chunkSize := Region.holds_length represents.carried
  have length := represents_rest_length represents
  obtain ⟨encodedValue, encoded⟩ := encode_whole state short
  have bounded := represents_bounded represents
  let asked := state.handing (wholeRecord filled) encodedValue
  let next := if delimiter = some state.startPtr then state.startPtr + 1 else state.startPtr
  have flushed : state.flush delimiter =
      some (.writes (wholeRecord filled) asked { asked with length := 0, startPtr := next }) := by
    simp only [Producing.flush, represents.length, Region.read_holds represents.carried, encoded,
      Option.bind_eq_bind, Option.bind_some]
    rfl
  refine ⟨_, flushed, rfl, short, rfl, bounded, represents.ordered, rfl,
    ⟨?_, rfl, ?_, ?_⟩, rfl, rfl⟩
  · exact Region.holds_nil state.overflow
  · simp only [asked, Producing.handing, next]
    split_ifs with here
    · rw [← represents.unread, List.drop_drop]
    · exact represents.unread
  · have ordered := represents.ordered
    simp only [Producing.endPtr, asked, Producing.handing, next] at *
    split_ifs with here
    · have longer := List.length_pos_iff.mpr (unread here)
      omega
    · exact ordered

/-- The distance from `start_ptr` to the delimiter, or to the end of the block. -/
theorem remaining_distance {state : Producing chunkSize} {overflow rest : List Byte}
    (represents : state.Represents overflow rest) (found : Option Nat) :
    Region.distance ((found.map fun index => state.startPtr + index).getD state.endPtr)
      state.startPtr = some (found.getD rest.length) := by
  have length := represents_rest_length represents
  cases found with
  | none =>
    rw [Option.map_none, Option.getD_none, Option.getD_none, ← length]
    rw [Region.distance_of_le (Nat.le_add_right _ _), Nat.add_sub_cancel_left]
  | some index =>
    rw [Option.map_some, Option.getD_some, Option.getD_some]
    rw [Region.distance_of_le (Nat.le_add_right _ _), Nat.add_sub_cancel_left]

/-- Copying bytes of the rest behind the carried ones. -/
theorem copy_represents {state : Producing chunkSize} {overflow rest : List Byte}
    (represents : state.Represents overflow rest) {copyLen : Nat} (inside : copyLen ≤ rest.length)
    (room : overflow.length + copyLen ≤ chunkSize) :
    ∃ next, state.overflow.write state.length (rest.take copyLen) = some next ∧
      (state.filling next copyLen).Represents (overflow ++ rest.take copyLen)
        (rest.drop copyLen) := by
  have copied : (rest.take copyLen).length = copyLen := List.length_take_of_le inside
  have length := represents_rest_length represents
  obtain ⟨next, written, holds⟩ := Region.write_holds represents.carried (rest.take copyLen) (by
    rw [copied]
    exact room)
  rw [← represents.length] at written
  refine ⟨next, written, holds, ?_, ?_, ?_⟩
  · simp only [Producing.filling, represents.length, List.length_append, copied]
  · simp only [Producing.filling, ← represents.unread, List.drop_drop]
  · simp only [Producing.filling, Producing.endPtr] at length ⊢
    omega

/-- The branch with bytes carried is the turn with bytes carried. -/
theorem carry_follows {state : Producing chunkSize} {overflow rest : List Byte}
    (represents : state.Represents overflow rest) (carrying : 0 < overflow.length) :
    ∃ iteration, state.carry ((memchr rest newline).map fun index => state.startPtr + index) =
        some iteration ∧
      iteration.Follows state.block state.records (innerTurn chunkSize overflow rest) := by
  have bounded := represents_bounded represents
  rw [represents.length] at bounded
  let copyLen := min ((memchr rest newline).getD rest.length) (chunkSize - overflow.length)
  have inside : copyLen ≤ rest.length := by
    refine Nat.le_trans (Nat.min_le_left _ _) ?_
    cases found : memchr rest newline with
    | none => exact Nat.le_refl rest.length
    | some index => exact Nat.le_of_lt (memchr_inside found)
  have room : overflow.length + copyLen ≤ chunkSize := by
    have least := Nat.min_le_right ((memchr rest newline).getD rest.length)
      (chunkSize - overflow.length)
    omega
  obtain ⟨next, written, copied⟩ := copy_represents represents inside room
  have ran : state.carry ((memchr rest newline).map fun index => state.startPtr + index) =
      if (memchr rest newline).isSome || (overflow ++ rest.take copyLen).length == chunkSize then
        (state.filling next copyLen).flush
          ((memchr rest newline).map fun index => state.startPtr + index)
      else some (.continues (state.filling next copyLen)) := by
    have read : (Region.of state.block).read state.startPtr
        (min ((memchr rest newline).getD rest.length) (chunkSize - overflow.length)) =
        some (rest.take copyLen) := represents_read represents inside
    rw [represents.length] at written
    simp only [Producing.carry, remaining_distance represents, represents.length,
      Region.distance_of_le bounded, read, written, Option.bind_eq_bind, Option.bind_some,
      Option.isSome_map, ← copied.length]
    rfl
  have turn : innerTurn chunkSize overflow rest =
      if (memchr rest newline).isSome || (overflow ++ rest.take copyLen).length == chunkSize then
        { payload := some (overflow ++ rest.take copyLen), overflow := [],
          rest := if memchr rest newline == some copyLen then (rest.drop copyLen).drop 1
            else rest.drop copyLen }
      else
        { payload := none, overflow := overflow ++ rest.take copyLen,
          rest := rest.drop copyLen } := by
    rw [innerTurn, if_pos carrying]
  by_cases full :
      (memchr rest newline).isSome || (overflow ++ rest.take copyLen).length == chunkSize
  · have here : (memchr rest newline).map (fun index => state.startPtr + index) =
        some (state.startPtr + copyLen) ↔ memchr rest newline = some copyLen := by
      rw [Option.map_eq_some_iff]
      constructor
      · rintro ⟨index, found, same⟩
        rw [found, Nat.add_left_cancel same]
      · intro found
        exact ⟨copyLen, found, rfl⟩
    obtain ⟨iteration, flushed, follows⟩ := flush_follows copied
      ((memchr rest newline).map fun index => state.startPtr + index) (fun next => by
        have inside := memchr_inside (here.mp next)
        exact List.ne_nil_of_length_pos (by
          rw [List.length_drop]
          omega))
    rw [ran, turn, if_pos full, if_pos full]
    refine ⟨iteration, flushed, ?_⟩
    simpa only [Producing.filling, here, beq_iff_eq] using follows
  · rw [ran, turn, if_neg full, if_neg full]
    exact ⟨.continues (state.filling next copyLen), rfl, rfl, copied, rfl, rfl⟩

/-- The branch that keeps the rest of a block copies all of it, which fits. -/
theorem keep_follows {state : Producing chunkSize} {rest : List Byte}
    (represents : state.Represents [] rest) (fits : state.block.length ≤ chunkSize) :
    ∃ iteration, state.keep = some iteration ∧
      iteration.Follows state.block state.records
        { payload := none, overflow := rest, rest := [] } := by
  have difference := remaining_distance represents none
  have read := represents_read represents (Nat.le_refl rest.length)
  rw [List.take_length] at read
  obtain ⟨next, written, holds⟩ :=
    Region.write_holds (Region.holds_nil state.overflow) rest (by
      rw [List.length_nil, Nat.zero_add]
      exact represents_short represents fits)
  rw [List.length_nil] at written
  let kept : Producing chunkSize :=
    { state with overflow := next, length := rest.length, startPtr := state.endPtr }
  refine ⟨.continues kept, ?_, rfl, ⟨holds, rfl, ?_, Nat.le_refl state.endPtr⟩, rfl, rfl⟩
  · simp only [Option.map_none, Option.getD_none] at difference
    simp only [Producing.keep, difference, read, written, Option.bind_eq_bind, Option.bind_some]
    rfl
  · exact List.drop_length

/-- The branch of a line that stands whole in the block encodes it from there. -/
theorem in_place_follows {state : Producing chunkSize} {rest : List Byte}
    (represents : state.Represents [] rest) (fits : state.block.length ≤ chunkSize) {index : Nat}
    (inside : index < rest.length) :
    ∃ iteration, state.inPlace (state.startPtr + index) = some iteration ∧
      iteration.Follows state.block state.records
        { payload := some (rest.take index), overflow := [], rest := rest.drop (index + 1) } := by
  have length := represents_rest_length represents
  have difference := remaining_distance represents (some index)
  have read := represents_read represents (Nat.le_of_lt inside)
  have short : (rest.take index).length ≤ chunkSize :=
    Nat.le_trans (List.length_take_le' index rest) (represents_short represents fits)
  obtain ⟨encodedValue, encoded⟩ := encode_whole state short
  have bounded := represents_bounded represents
  let asked := state.handing (wholeRecord (rest.take index)) encodedValue
  refine ⟨.writes (wholeRecord (rest.take index)) asked
    { asked with startPtr := state.startPtr + index + 1 }, ?_, rfl, short, rfl, bounded,
    represents.ordered, rfl, ⟨represents.carried, represents.length, ?_, ?_⟩, rfl, rfl⟩
  · simp only [Option.map_some, Option.getD_some] at difference
    simp only [Producing.inPlace, difference, read, encoded, Option.bind_eq_bind, Option.bind_some]
    rfl
  · simp only [asked, Producing.handing, ← represents.unread, List.drop_drop, Nat.add_assoc]
  · simp only [asked, Producing.handing, Producing.endPtr] at length ⊢
    omega

/-- With a block that fits into a chunk, an iteration stays within its buffers and
is the turn of the list model. -/
theorem iteration_follows {state : Producing chunkSize} {overflow rest : List Byte}
    (represents : state.Represents overflow rest) (fits : state.block.length ≤ chunkSize) :
    ∃ iteration, state.iteration = some iteration ∧
      iteration.Follows state.block state.records (innerTurn chunkSize overflow rest) := by
  have read := represents_read represents (Nat.le_refl rest.length)
  rw [List.take_length] at read
  have difference := remaining_distance represents none
  simp only [Option.map_none, Option.getD_none] at difference
  have found : state.iteration =
      if overflow.length > 0 then
        state.carry ((memchr rest newline).map fun index => state.startPtr + index)
      else
        match (memchr rest newline).map fun index => state.startPtr + index with
        | none => state.keep
        | some delimiter => state.inPlace delimiter := by
    simp only [Producing.iteration, difference, read, represents.length, Option.bind_eq_bind,
      Option.bind_some]
  rw [found]
  by_cases carrying : 0 < overflow.length
  · rw [if_pos carrying]
    exact carry_follows represents carrying
  · obtain rfl : overflow = [] := List.length_eq_zero_iff.mp (by omega)
    rw [if_neg carrying, innerTurn, if_neg carrying]
    cases searched : memchr rest newline with
    | none => exact keep_follows represents fits
    | some index => exact in_place_follows represents fits (memchr_inside searched)

/-- With bytes unread an iteration is made, and without a record it goes on. -/
theorem step_continues {state next : Producing chunkSize} (unread : state.startPtr < state.endPtr)
    (ran : state.iteration = some (.continues next)) (answer : Errno) :
    Produce.step (.running state) (.iterate answer) = some (.running next) := by
  rw [Produce.step, if_pos unread, Producing.iterated, ran]

/-- With a record it goes on when the record is written. -/
theorem step_written {state asked next : Producing chunkSize} {record : Record}
    (unread : state.startPtr < state.endPtr)
    (ran : state.iteration = some (.writes record asked next)) :
    Produce.step (.running state) (.iterate .ok) = some (.running next) := by
  rw [Produce.step, if_pos unread, Producing.iterated, ran]
  apply congrArg some
  exact if_pos rfl

/-- When the record is not written the loops are left. -/
theorem step_failed {state asked next : Producing chunkSize} {record : Record} {answer : Errno}
    (unread : state.startPtr < state.endPtr)
    (ran : state.iteration = some (.writes record asked next)) (failed : answer ≠ .ok) :
    Produce.step (.running state) (.iterate answer) = some (.left answer asked) := by
  rw [Produce.step, if_pos unread, Producing.iterated, ran]
  apply congrArg some
  exact if_neg failed

end JPipe
