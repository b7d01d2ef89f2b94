import JPipe.Producing
import JPipe.Schedules

/-!
# Runs of the writer on its buffers

A schedule says which blocks `jp_queue_pop_uncommitted` returns and what
`jp_file_writev` answers, so the runs of the machine are those of
`jp_writer_produce` over all sequences of blocks. The bounds hold in each because
the carried bytes fit into their buffer after every turn. The loop over a block
ends because every turn reads on or empties the buffer: an iteration on a full
buffer need not move `start_ptr`, but the one after it finds the buffer empty.

A returned call of the list model is a run here, with the same records.
-/

namespace JPipe

variable {chunkSize : Nat}

/-! ### Bounds in every run -/

/-- The bounds between two iterations. -/
def Produce.Sound : Produce chunkSize → Prop
  | .running state => state.length ≤ chunkSize ∧ state.startPtr ≤ state.endPtr ∧
      state.block.length ≤ chunkSize
  | .left _ state => state.length ≤ chunkSize ∧ state.startPtr ≤ state.endPtr
  | .outside => False

/-- From within the bounds an iteration gets back into them, whatever is answered. -/
theorem iterated_sound {state : Producing chunkSize} (sound : (Produce.running state).Sound)
    (answer : Errno) : (state.iterated answer).Sound := by
  obtain ⟨bounded, ordered, fits⟩ := sound
  obtain ⟨iteration, ran, follows⟩ := iteration_follows (represents_self bounded ordered) fits
  have again {next : Producing chunkSize} {held left : List Byte}
      (represents : next.Represents held left) (block : next.block = state.block) :
      (Produce.running next).Sound := by
    refine ⟨represents_bounded represents, represents.ordered, ?_⟩
    rw [block]
    exact fits
  rw [Producing.iterated, ran]
  cases iteration with
  | continues next => exact again follows.represents follows.block
  | writes record asked next =>
    by_cases written : answer = .ok
    · simp only [written, ↓reduceIte]
      exact again follows.represents follows.block
    · simp only [written, ↓reduceIte]
      exact ⟨follows.bounded, follows.ordered⟩

/-- The blocks of a schedule fit into a chunk. -/
def ProduceLabel.Fits (chunkSize : Nat) : ProduceLabel → Prop
  | .popped block => block.length ≤ chunkSize
  | .refused _ => True
  | .iterate _ => True

theorem step_sound (produce : Produce chunkSize) (label : ProduceLabel) (next : Produce chunkSize)
    (sound : produce.Sound) (fits : label.Fits chunkSize) (taken : produce.step label = some next) :
    next.Sound := by
  cases produce with
  | left err state => cases taken
  | outside => cases taken
  | running state =>
    cases label with
    | popped block =>
      simp only [Produce.step, Option.ite_none_left_eq_some, Option.some.injEq] at taken
      obtain ⟨_, rfl⟩ := taken
      exact ⟨sound.1, Nat.zero_le _, fits⟩
    | refused err =>
      simp only [Produce.step, Option.ite_none_left_eq_some, Option.some.injEq] at taken
      obtain ⟨_, rfl⟩ := taken
      exact ⟨sound.1, sound.2.1⟩
    | iterate answer =>
      simp only [Produce.step, Option.ite_none_right_eq_some, Option.some.injEq] at taken
      obtain ⟨_, rfl⟩ := taken
      exact iterated_sound sound answer

/-- What holds at the head of the inner loop and in the iteration that follows: no
access is outside of its buffer and no difference negative, the encoder is given
at most a chunk, and it stops only at the end of what it is given. -/
structure Producing.InBounds (state : Producing chunkSize) : Prop where
  carried : state.length ≤ chunkSize
  ordered : state.startPtr ≤ state.endPtr
  inside : state.iteration ≠ none
  encodes : ∀ record asked next, state.iteration = some (.writes record asked next) →
    record.payload.length ≤ chunkSize ∧ record.encoded = record.payload.flatMap escaped ∧
      asked.length ≤ chunkSize ∧ asked.startPtr ≤ asked.endPtr

/-- In every run over blocks no longer than a chunk, whatever the buffers contain at
first and whatever `jp_file_writev` answers, each iteration of the inner loop
stays in its bounds. -/
theorem producing_in_bounds (overflow : Region Byte chunkSize)
    (encodedValue : Region Byte (chunkSize * jsonEscapeMul)) (schedule : List ProduceLabel)
    (fits : ∀ block, ProduceLabel.popped block ∈ schedule → block.length ≤ chunkSize)
    (final : Produce chunkSize)
    (ran : Schedules.run Produce.step (.begin overflow encodedValue) schedule = some final) :
    final ≠ .outside ∧ (∀ state, final = .running state → state.InBounds) ∧
      ∀ err state, final = .left err state →
        state.length ≤ chunkSize ∧ state.startPtr ≤ state.endPtr := by
  have admitted : ∀ label ∈ schedule, label.Fits chunkSize := by
    intro label member
    cases label with
    | popped block => exact fits block member
    | refused err => trivial
    | iterate answer => trivial
  have start : (Produce.begin overflow encodedValue).Sound :=
    ⟨Nat.zero_le _, Nat.le_refl 0, Nat.zero_le _⟩
  have sound : final.Sound := Schedules.run_guarded_invariant step_sound start
    (Schedules.along_of_forall admitted) ran
  refine ⟨?_, ?_, ?_⟩
  · rintro rfl
    exact sound
  · rintro state rfl
    obtain ⟨bounded, ordered, short⟩ := sound
    obtain ⟨iteration, found, follows⟩ := iteration_follows (represents_self bounded ordered) short
    refine ⟨bounded, ordered, ?_, ?_⟩
    · rw [found]
      exact Option.some_ne_none iteration
    · intro record asked next writes
      obtain rfl := Option.some.inj (found.symm.trans writes)
      exact ⟨follows.short, follows.whole, follows.bounded, follows.ordered⟩
  · rintro err state rfl
    exact sound

/-- Before the second of two blocks the buffer is full: the iteration after it copies
nothing. -/
theorem full_carry_in_bounds :
    ∃ state : Producing 2,
      Schedules.run Produce.step (.begin { cells := [0, 0], sized := rfl }
        { cells := List.replicate 12 0, sized := rfl })
        [.popped [0x61, 0x62], .iterate .ok, .popped [0x63, 0x0a]] = some (.running state) ∧
      state.length = 2 ∧ state.InBounds := by
  refine ⟨_, rfl, rfl, ?_⟩
  apply (producing_in_bounds { cells := [0, 0], sized := rfl }
    { cells := List.replicate 12 0, sized := rfl }
    [.popped [0x61, 0x62], .iterate .ok, .popped [0x63, 0x0a]] ?_ _ rfl).2.1
  · rfl
  · intro block member
    simp only [List.mem_cons, ProduceLabel.popped.injEq, reduceCtorEq, List.not_mem_nil, false_or,
      or_false] at member
    obtain rfl | rfl := member <;> decide

/-! ### The loop over a block -/

/-- A turn reads on, or empties the buffer without carrying anything new. -/
theorem turn_progress {overflow rest : List Byte} (bounded : overflow.length ≤ chunkSize)
    (fits : rest.length ≤ chunkSize) (unread : rest ≠ []) :
    2 * (innerTurn chunkSize overflow rest).rest.length +
        min (innerTurn chunkSize overflow rest).overflow.length 1 <
      2 * rest.length + min overflow.length 1 := by
  have positive : 0 < chunkSize := Nat.lt_of_lt_of_le (List.length_pos_iff.mpr unread) fits
  by_cases fresh : overflow = []
  · rw [fresh]
    exact (turn_in_place positive false rest unread fits (fun _ => rfl)).progress
  · exact (turn_carried positive true overflow rest fresh unread bounded (fun _ => rfl)).progress

/-- With a full buffer and a byte other than a newline next, an iteration writes a
record and does not move `start_ptr`. -/
theorem full_buffer_stays {state : Producing chunkSize} {overflow tail : List Byte} {ch : Byte}
    (represents : state.Represents overflow (ch :: tail)) (fits : state.block.length ≤ chunkSize)
    (full : overflow.length = chunkSize) (other : ch ≠ newline) :
    ∃ record asked next, state.iteration = some (.writes record asked next) ∧
      next.startPtr = state.startPtr := by
  have length := represents_rest_length represents
  have positive : 0 < overflow.length := by
    rw [List.length_cons, Producing.endPtr] at length
    omega
  have turn := inner_turn_filled overflow [] ch tail (List.ne_nil_of_length_pos positive)
    List.not_mem_nil other full
  rw [List.nil_append, List.append_nil] at turn
  obtain ⟨iteration, ran, follows⟩ := iteration_follows represents fits
  rw [turn] at follows
  cases iteration with
  | continues next => cases follows.payload
  | writes record asked next =>
    have after := represents_rest_length follows.represents
    refine ⟨record, asked, next, ran, ?_⟩
    rw [Producing.endPtr, follows.block] at after
    exact Nat.add_right_cancel (after.trans length.symm)

/-- The loop ended: the block is read, or a write failed with one of the answers. -/
def Produce.EndedBy (answers : Nat → Errno) : Produce chunkSize → Prop
  | .running state => state.startPtr = state.endPtr
  | .left err _ => err ≠ .ok ∧ ∃ turn, answers turn = err
  | .outside => False

theorem ended_by_later {answers : Nat → Errno} {produce : Produce chunkSize}
    (ended : produce.EndedBy fun turn => answers (turn + 1)) : produce.EndedBy answers := by
  cases produce with
  | running state => exact ended
  | left err state =>
    obtain ⟨failed, turn, answered⟩ := ended
    exact ⟨failed, turn + 1, answered⟩
  | outside => exact ended

/-- The iterations of the inner loop with these answers of `jp_file_writev`. -/
def iterations (answers : Nat → Errno) (turns : Nat) : List ProduceLabel :=
  (List.range turns).map fun turn => .iterate (answers turn)

theorem iterations_succ (answers : Nat → Errno) (turns : Nat) :
    iterations answers (turns + 1) =
      .iterate (answers 0) :: iterations (fun turn => answers (turn + 1)) turns := by
  rw [iterations, List.range_succ_eq_map, List.map_cons, List.map_map]
  rfl

/-- Two iterations for each byte left and one for carried bytes are enough.

Induct on the iterations allowed. Each is a turn, which leaves less to do, or its
write fails and it is the last. -/
theorem iterations_end (turns : Nat) (answers : Nat → Errno) {state : Producing chunkSize}
    {overflow rest : List Byte} (represents : state.Represents overflow rest)
    (fits : state.block.length ≤ chunkSize)
    (enough : 2 * rest.length + min overflow.length 1 ≤ turns) :
    ∃ used ≤ turns, ∃ final, Schedules.run Produce.step (.running state) (iterations answers used) =
      some final ∧ final.EndedBy answers := by
  have length := represents_rest_length represents
  induction turns generalizing state overflow rest answers with
  | zero =>
    refine ⟨0, Nat.le_refl 0, .running state, rfl, ?_⟩
    rw [Produce.EndedBy]
    omega
  | succ turns ih =>
    by_cases read : rest = []
    · refine ⟨0, Nat.zero_le _, .running state, rfl, ?_⟩
      rw [read, List.length_nil] at length
      exact length
    · have unread := (represents_unread represents).mpr read
      have progress := turn_progress (Region.holds_length represents.carried)
        (represents_short represents fits) read
      obtain ⟨iteration, ran, follows⟩ := iteration_follows represents fits
      have following (next : Producing chunkSize)
          (stands : next.Represents (innerTurn chunkSize overflow rest).overflow
            (innerTurn chunkSize overflow rest).rest)
          (block : next.block = state.block)
          (taken : Produce.step (.running state) (.iterate (answers 0)) = some (.running next)) :
          ∃ used ≤ turns + 1, ∃ final, Schedules.run Produce.step (.running state)
            (iterations answers used) = some final ∧ final.EndedBy answers := by
        obtain ⟨used, few, final, others, ended⟩ := ih (fun turn => answers (turn + 1)) stands
          (block ▸ fits) (by omega) (represents_rest_length stands)
        refine ⟨used + 1, Nat.succ_le_succ few, final, ?_, ended_by_later ended⟩
        rw [iterations_succ, Schedules.run_cons_iff]
        exact ⟨.running next, taken, others⟩
      cases iteration with
      | continues next =>
        apply following next follows.represents follows.block
        exact step_continues unread ran (answers 0)
      | writes record asked next =>
        by_cases written : answers 0 = .ok
        · apply following next follows.represents follows.block
          rw [written]
          exact step_written unread ran
        · refine ⟨1, Nat.succ_le_succ (Nat.zero_le turns), .left (answers 0) asked, ?_,
            written, 0, rfl⟩
          rw [iterations_succ, Schedules.run_cons_iff]
          exact ⟨.left (answers 0) asked, step_failed unread ran written, rfl⟩

/-- The inner loop over any block no longer than a chunk ends, with any number of
bytes carried into it and whatever `jp_file_writev` answers, although an iteration
on a full buffer does not move `start_ptr` unless a newline is next. -/
theorem block_loop_ends (state : Producing chunkSize) (carried : state.length ≤ chunkSize)
    (ordered : state.startPtr ≤ state.endPtr) (fits : state.block.length ≤ chunkSize)
    (answers : Nat → Errno) :
    (∃ turns ≤ 2 * state.block.length + 1, ∃ final,
      Schedules.run Produce.step (.running state) (iterations answers turns) = some final ∧
        final.EndedBy answers) ∧
    (state.length = chunkSize → ∀ ch ∈ (state.block.drop state.startPtr).head?, ch ≠ newline →
      ∃ record asked next, state.iteration = some (.writes record asked next) ∧
        next.startPtr = state.startPtr) := by
  have represents := represents_self carried ordered
  constructor
  · obtain ⟨turns, few, final, ran, ended⟩ := iterations_end
      (2 * (state.block.drop state.startPtr).length + 1) answers represents fits (by omega)
    refine ⟨turns, Nat.le_trans few ?_, final, ran, ended⟩
    rw [List.length_drop]
    omega
  · intro full ch next other
    obtain ⟨tail, unread⟩ := List.head?_eq_some_iff.mp next
    rw [unread] at represents
    exact full_buffer_stays represents fits (represents.length.symm.trans full) other

/-- Two bytes carried in a buffer of two, before a block of two more without a newline. -/
def fullCarry : Producing 2 where
  overflow := { cells := [0x61, 0x62], sized := rfl }
  length := 2
  encodedValue := { cells := List.replicate 12 0, sized := rfl }
  block := [0x63, 0x64]
  startPtr := 0
  records := []

theorem full_carry_ends :
    ∃ turns ≤ 5, ∃ final, Schedules.run Produce.step (.running fullCarry)
      (iterations (fun _ => .ok) turns) = some final ∧ final.EndedBy fun _ => .ok :=
  (block_loop_ends fullCarry (by decide) (by decide) (by decide) fun _ => .ok).1

/-! ### Runs of the list model -/

section Refinement

variable {σ : Type} (fields : FieldSet) (emit : σ → List Byte → Option (σ × Errno))

/-- The context of a writer for JSON records. -/
def jsonWriter (chunkSize : Nat) (fields : FieldSet) : WriterCtx where
  chunkSize := chunkSize
  fields := fields
  encoder := jpEncoderJson

/-- What a call of the inner loop on lists says of this machine: it is at the end of
the block with the same bytes carried, or left with the same error, and it wrote
the same records. -/
def LoopReaches (final : Writer σ) (err : Errno) : Produce chunkSize → Prop
  | .running state => err = .ok ∧ state.Represents final.overflow [] ∧
      state.block.length ≤ chunkSize ∧ state.records = final.records
  | .left other state => err = other ∧ other ≠ .ok ∧ state.records = final.records
  | .outside => False

/-- A record encoded whole is the record of the list model. -/
theorem record_of_whole {record : Record} (short : record.payload.length ≤ chunkSize)
    (whole : record.encoded = record.payload.flatMap escaped) :
    recordOf (jsonWriter chunkSize fields) record.payload = record := by
  obtain ⟨payload, encoded⟩ := record
  obtain rfl : encoded = payload.flatMap escaped := whole
  have roomy : jpJsonValueEncoder payload (chunkSize * jsonEscapeMul) = payload.flatMap escaped :=
    value_encoder_whole short
  simp only [recordOf, jsonWriter, jpEncoderJson, roomy]

/-- The inner loop on lists is a run of iterations. -/
theorem inner_loop_run (fuel : Nat) {writer final : Writer σ} {rest : List Byte} {err : Errno}
    (looped : innerLoop (jsonWriter chunkSize fields) emit fuel writer rest = some (final, err))
    {state : Producing chunkSize} (represents : state.Represents writer.overflow rest)
    (fits : state.block.length ≤ chunkSize) (records : state.records = writer.records) :
    ∃ (answers : List Errno) (last : Produce chunkSize), Schedules.run Produce.step (.running state)
      (answers.map .iterate) = some last ∧ LoopReaches final err last := by
  induction fuel generalizing writer rest state with
  | zero =>
    cases rest with
    | nil =>
      obtain ⟨rfl, rfl⟩ : writer = final ∧ Errno.ok = err := by simpa [innerLoop] using looped
      exact ⟨[], .running state, rfl, rfl, represents, fits, records⟩
    | cons ch tail => cases looped
  | succ fuel ih =>
    cases rest with
    | nil =>
      obtain ⟨rfl, rfl⟩ : writer = final ∧ Errno.ok = err := by simpa [innerLoop] using looped
      exact ⟨[], .running state, rfl, rfl, represents, fits, records⟩
    | cons ch tail =>
      have unread := (represents_unread represents).mpr (List.cons_ne_nil ch tail)
      obtain ⟨iteration, ran, follows⟩ := iteration_follows represents fits
      rw [innerLoop] at looped
      simp only [jsonWriter] at looped follows
      cases iteration with
      | continues next =>
        simp only [follows.payload] at looped
        obtain ⟨answers, last, following, reaches⟩ := ih looped follows.represents
          (follows.block ▸ fits) (follows.records.trans records)
        refine ⟨.ok :: answers, last, ?_, reaches⟩
        rw [List.map_cons, Schedules.run_cons_iff]
        exact ⟨.running next, step_continues unread ran .ok, following⟩
      | writes record asked next =>
        simp only [follows.payload] at looped
        obtain ⟨⟨written, answer⟩, handed, going⟩ := Option.bind_eq_some_iff.mp looped
        obtain ⟨⟨sink, answered⟩, _, same⟩ := Option.map_eq_some_iff.mp handed
        obtain ⟨rfl, rfl⟩ := Prod.mk.inj same
        have appended : state.records ++ [record] =
            writer.records ++ [recordOf (jsonWriter chunkSize fields) record.payload] := by
          rw [records, record_of_whole fields follows.short follows.whole]
        by_cases succeeded : answered = .ok
        · simp only [succeeded, ↓reduceIte] at going
          obtain ⟨answers, last, following, reaches⟩ := ih going follows.represents
            (follows.block ▸ fits) (follows.records.trans appended)
          refine ⟨.ok :: answers, last, ?_, reaches⟩
          rw [List.map_cons, Schedules.run_cons_iff]
          exact ⟨.running next, step_written unread ran, following⟩
        · simp only [succeeded, ↓reduceIte, Option.some.injEq, Prod.mk.injEq] at going
          obtain ⟨rfl, rfl⟩ := going
          refine ⟨[answered], .left answered asked, ?_, rfl, succeeded,
            follows.emitted.trans appended⟩
          rw [List.map_singleton, Schedules.run_cons_iff]
          exact ⟨.left answered asked, step_failed unread ran succeeded, rfl⟩

/-- The block a label pops. -/
def ProduceLabel.block? : ProduceLabel → Option (List Byte)
  | .popped block => some block
  | .refused _ => none
  | .iterate _ => none

theorem iterate_pops_nothing (answers : List Errno) :
    (answers.map ProduceLabel.iterate).filterMap ProduceLabel.block? = [] := by
  rw [List.filterMap_map, List.filterMap_eq_nil_iff]
  intro answer _
  rfl

/-- The outer loop on lists is a run that pops the blocks in order. -/
theorem outer_loop_run {blocks : List (List Byte)}
    (fits : ∀ block ∈ blocks, block.length ≤ chunkSize) {writer final : Writer σ} {err : Errno}
    (looped : outerLoop (jsonWriter chunkSize fields) emit writer blocks = some (final, err))
    {state : Producing chunkSize} (represents : state.Represents writer.overflow [])
    (records : state.records = writer.records) :
    ∃ (schedule : List ProduceLabel) (last : Producing chunkSize),
      Schedules.run Produce.step (.running state) schedule = some (.left err last) ∧
      last.records = final.records ∧ schedule.filterMap ProduceLabel.block? <+: blocks := by
  have finished : ¬ state.startPtr < state.endPtr := fun unread =>
    (represents_unread represents).mp unread rfl
  induction blocks generalizing writer state with
  | nil =>
    obtain ⟨rfl, rfl⟩ : writer = final ∧ Errno.eshuttingDown = err := by
      simpa [outerLoop] using looped
    refine ⟨[.refused .eshuttingDown], state, ?_, records, List.prefix_rfl⟩
    rw [Schedules.run_cons_iff]
    refine ⟨.left .eshuttingDown state, ?_, rfl⟩
    rw [Produce.step, if_neg]
    exact not_or.mpr ⟨finished, by decide⟩
  | cons block rest ih =>
    rw [outerLoop] at looped
    obtain ⟨⟨middle, answer⟩, inner, going⟩ := Option.bind_eq_some_iff.mp looped
    have short : block.length ≤ chunkSize := fits block List.mem_cons_self
    have popped : Produce.step (.running state) (.popped block) =
        some (.running { state with block, startPtr := 0 }) := by
      rw [Produce.step, if_neg finished]
    have started : Producing.Represents { state with block, startPtr := 0 } writer.overflow block :=
      ⟨represents.carried, represents.length, rfl, Nat.zero_le _⟩
    obtain ⟨answers, reached, ran, reaches⟩ :=
      inner_loop_run fields emit (blockFuel block) inner started short records
    have pops : (ProduceLabel.popped block :: answers.map .iterate).filterMap ProduceLabel.block? =
        [block] := by
      simp only [List.filterMap_cons, ProduceLabel.block?, iterate_pops_nothing]
    cases reached with
    | outside => cases reaches
    | left other last =>
      obtain ⟨rfl, failed, same⟩ := reaches
      simp only [failed, ↓reduceIte, Option.some.injEq, Prod.mk.injEq] at going
      obtain ⟨rfl, rfl⟩ := going
      refine ⟨.popped block :: answers.map .iterate, last, ?_, same, ?_⟩
      · rw [Schedules.run_cons_iff]
        exact ⟨_, popped, ran⟩
      · rw [pops]
        exact List.cons_prefix_cons.mpr ⟨rfl, List.nil_prefix⟩
    | running next =>
      obtain ⟨rfl, stands, _, same⟩ := reaches
      simp only [↓reduceIte] at going
      have ended : ¬ next.startPtr < next.endPtr := fun unread =>
        (represents_unread stands).mp unread rfl
      obtain ⟨schedule, last, following, written, started⟩ :=
        ih (fun other member => fits other (List.mem_cons_of_mem block member)) going stands same
          ended
      refine ⟨(.popped block :: answers.map .iterate) ++ schedule, last, ?_, written, ?_⟩
      · rw [Schedules.run_append, Schedules.run, popped, Option.bind_some, ran, Option.bind_some]
        exact following
      · rw [List.filterMap_append, pops]
        exact List.cons_prefix_cons.mpr ⟨rfl, started⟩

/-- A returned call of the writer on lists is a run of the one on buffers, whatever
they contain at first: it popped the first of the blocks, wrote the same records
and returned the same status. -/
theorem writer_produce_run (blocks : List (List Byte))
    (fits : ∀ block ∈ blocks, block.length ≤ chunkSize) (sink : σ) {final : Writer σ} {err : Errno}
    (produced : jpWriterProduce (jsonWriter chunkSize fields) emit sink blocks = some (final, err))
    (overflow : Region Byte chunkSize) (encodedValue : Region Byte (chunkSize * jsonEscapeMul)) :
    ∃ (schedule : List ProduceLabel) (answer : Errno) (last : Producing chunkSize),
      Schedules.run Produce.step (.begin overflow encodedValue) schedule =
        some (.left answer last) ∧
      last.records = final.records ∧ err = (if jpQueueIsGracefulErr answer then .ok else answer) ∧
      schedule.filterMap ProduceLabel.block? <+: blocks := by
  obtain ⟨⟨writer, answer⟩, looped, cleaned⟩ := Option.map_eq_some_iff.mp produced
  obtain ⟨rfl, rfl⟩ := Prod.mk.inj cleaned
  have start : Producing.Represents
      { overflow, length := 0, encodedValue, block := [], startPtr := 0, records := [] } [] [] :=
    ⟨Region.holds_nil overflow, rfl, rfl, Nat.le_refl 0⟩
  obtain ⟨schedule, last, ran, records, popped⟩ :=
    outer_loop_run fields emit fits looped start rfl
  exact ⟨schedule, answer, last, ran, records, rfl, popped⟩

end Refinement

end JPipe
