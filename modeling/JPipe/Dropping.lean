import JPipe.Contiguity
import JPipe.Pairing
import JPipe.Payloads
import JPipe.Schedules
import Mathlib.Data.List.Basic

/-!
# Messages under the dropping policy

`jp_reader_consume` discards what one `read` returned, wherever the line in it
starts and ends, and the writer puts the lines together from the blocks that are
left. The block after discarded bytes joins the piece the writer carries over unless
the piece ends there by itself: it is empty, it has reached the chunk size, or the
block starts with the newline. A run in which no block joins in this way records
runs of single lines only.
-/

namespace JPipe

/-! ### The block after discarded bytes -/

/-- The bytes last committed or discarded were discarded. -/
def Reader.afterDiscard (reader : Reader) : Bool :=
  match reader.log.getLast? with
  | some (.discarded _) => true
  | _ => false

/-- Bytes stored at the start of a block after discarded ones, in the middle of a
piece of the committed bytes. -/
def Reader.Joins (chunkSize : Nat) (reader : Reader) (bytes : List Byte) : Prop :=
  reader.queueErr ≠ .emsgShouldDrop ∧ reader.afterDiscard = true ∧ reader.held = [] ∧
    bytes.head? ≠ some newline ∧ ¬ chunkSize ∣ (lastLine reader.committed.flatten).length

instance (chunkSize : Nat) (reader : Reader) (bytes : List Byte) :
    Decidable (reader.Joins chunkSize bytes) :=
  inferInstanceAs (Decidable (_ ∧ _ ∧ _ ∧ _ ∧ _))

/-- A step that stores no such bytes. -/
def Pipeline.Parts (chunkSize : Nat) (state : Pipeline) : PipelineLabel → Prop
  | .call (.read (.data bytes)) => ¬ state.reader.Joins chunkSize bytes
  | _ => True

instance (chunkSize : Nat) (state : Pipeline) (label : PipelineLabel) :
    Decidable (state.Parts chunkSize label) := by
  unfold Pipeline.Parts
  split <;> infer_instance

/-- The cutting of the blocks committed so far. -/
def Reader.cutting (chunkSize : Nat) (reader : Reader) : List (List Byte) × List Byte :=
  Cutting.feed chunkSize newline [] (Cutting.markBlocks chunkSize reader.committed)

/-- The bytes committed or discarded so far. -/
def Reader.seen (reader : Reader) : List Byte := reader.log.flatMap Fate.bytes

/-- The pieces of the committed blocks are runs of the bytes seen. The piece carried
over ends them, unless bytes were discarded since; then a block that is not empty
does not join it. -/
structure Unmixed (chunkSize : Nat) (reader : Reader) : Prop where
  pieces : ∀ piece ∈ (reader.cutting chunkSize).1, newline ∉ piece ∧ piece <:+: reader.seen
  carried : newline ∉ (reader.cutting chunkSize).2 ∧ (reader.cutting chunkSize).2 <:+: reader.seen
  recent : reader.afterDiscard = false → (reader.cutting chunkSize).2 <:+ reader.seen
  apart : reader.afterDiscard = true → reader.held ≠ [] →
    (reader.cutting chunkSize).2 = [] ∨ (reader.cutting chunkSize).2.length = chunkSize ∨
      reader.held.head? = some newline

/-- Nothing was seen at the start. -/
theorem start_unmixed (chunkSize : Nat) : Unmixed chunkSize Reader.start where
  pieces := by simp [Reader.cutting, Reader.start, Reader.committed, Cutting.markBlocks, Cutting.feed]
  carried := by
    simp [Reader.cutting, Reader.start, Reader.committed, Cutting.markBlocks, Cutting.feed]
  recent _ := List.nil_suffix
  apart := by simp [Reader.afterDiscard, Reader.start]

/-- A step that leaves the log alone keeps the pieces; the bytes stored are after the
ones held before. -/
theorem unmixed_of_log {chunkSize : Nat} {reader next : Reader} (unmixed : Unmixed chunkSize reader)
    (log : next.log = reader.log)
    (held : next.held = [] ∨ reader.held ≠ [] ∧ reader.held <+: next.held) :
    Unmixed chunkSize next := by
  have cutting : next.cutting chunkSize = reader.cutting chunkSize := by
    rw [Reader.cutting, Reader.cutting, Reader.committed, Reader.committed, log]
  have seen : next.seen = reader.seen := by rw [Reader.seen, Reader.seen, log]
  have discarding : next.afterDiscard = reader.afterDiscard := by
    rw [Reader.afterDiscard, Reader.afterDiscard, log]
  constructor
  · rw [cutting, seen]
    exact unmixed.pieces
  · rw [cutting, seen]
    exact unmixed.carried
  · rw [cutting, seen, discarding]
    exact unmixed.recent
  · rw [cutting, discarding]
    intro after filled
    rcases held with empty | ⟨before, bytes, grown⟩
    · exact absurd empty filled
    · rw [← grown, List.head?_append_of_ne_nil _ before]
      exact unmixed.apart after before

/-- Discarded bytes leave the pieces as they are. -/
theorem unmixed_discarded {chunkSize : Nat} {reader next : Reader} {bytes : List Byte}
    (unmixed : Unmixed chunkSize reader) (log : next.log = reader.log ++ [.discarded bytes])
    (empty : next.held = []) : Unmixed chunkSize next := by
  have cutting : next.cutting chunkSize = reader.cutting chunkSize := by
    rw [Reader.cutting, Reader.cutting, Reader.committed, Reader.committed, log]
    simp
  have seen : next.seen = reader.seen ++ bytes := by
    simp [Reader.seen, log, Fate.bytes]
  have longer : reader.seen <:+: next.seen := by
    rw [seen]
    exact (List.prefix_append _ _).isInfix
  constructor
  · rw [cutting]
    intro piece member
    obtain ⟨plain, within⟩ := unmixed.pieces piece member
    exact ⟨plain, within.trans longer⟩
  · rw [cutting]
    exact ⟨unmixed.carried.1, unmixed.carried.2.trans longer⟩
  · intro kept
    simp [Reader.afterDiscard, log] at kept
  · intro _ filled
    exact absurd empty filled

/-- The block committed is cut after the piece carried over. -/
theorem cutting_commit {chunkSize : Nat} {reader next : Reader}
    (log : next.log = reader.log ++ [.committed reader.held]) :
    next.cutting chunkSize =
      ((reader.cutting chunkSize).1 ++
          (Cutting.feed chunkSize newline (reader.cutting chunkSize).2
            (Cutting.markLast (reader.held.length < chunkSize) reader.held)).1,
        (Cutting.feed chunkSize newline (reader.cutting chunkSize).2
          (Cutting.markLast (reader.held.length < chunkSize) reader.held)).2) := by
  have committed : next.committed = reader.committed ++ [reader.held] := by
    simp [Reader.committed, log]
  rw [Reader.cutting, committed, Cutting.markBlocks, List.flatMap_append, Cutting.feed_append,
    List.flatMap_singleton]
  rfl

/-- The block after discarded bytes does not join the piece carried over; any other
block follows it. -/
theorem block_pieces {chunkSize : Nat} (positive : 0 < chunkSize) {reader : Reader}
    (unmixed : Unmixed chunkSize reader) (filled : reader.held ≠ [])
    (marked : List (Byte × Bool)) (items : marked.map Prod.fst = reader.held) :
    (∀ piece ∈ (Cutting.feed chunkSize newline (reader.cutting chunkSize).2 marked).1,
        newline ∉ piece ∧ piece <:+: reader.seen ++ reader.held) ∧
      newline ∉ (Cutting.feed chunkSize newline (reader.cutting chunkSize).2 marked).2 ∧
      (Cutting.feed chunkSize newline (reader.cutting chunkSize).2 marked).2 <:+
        reader.seen ++ reader.held := by
  cases discarding : reader.afterDiscard with
  | false =>
    have fed := Cutting.feed_contiguous unmixed.carried.1 chunkSize marked
    have ends : (reader.cutting chunkSize).2 ++ reader.held <:+ reader.seen ++ reader.held := by
      obtain ⟨front, seen⟩ := unmixed.recent discarding
      rw [← seen, List.append_assoc]
      exact List.suffix_append front _
    rw [items] at fed
    refine ⟨?_, fed.held.1, fed.held.2.trans ends⟩
    intro piece member
    obtain ⟨plain, within⟩ := fed.pieces piece member
    exact ⟨plain, within.trans ends.isInfix⟩
  | true =>
    have ends : reader.held <:+ reader.seen ++ reader.held := List.suffix_append _ _
    cases marked with
    | nil => exact absurd items.symm filled
    | cons first rest =>
      have apart : (reader.cutting chunkSize).2 = [] ∨
          (reader.cutting chunkSize).2.length = chunkSize ∨ first.1 = newline := by
        have separate := unmixed.apart discarding filled
        simpa [← items] using separate
      obtain ⟨given, plain, last⟩ := Cutting.feed_apart positive first rest apart
      rw [items] at given last
      refine ⟨?_, plain, last.trans ends⟩
      intro piece member
      rcases given piece member with rfl | ⟨clean, within⟩
      · exact ⟨unmixed.carried.1,
          unmixed.carried.2.trans (List.prefix_append _ _).isInfix⟩
      · exact ⟨clean, within.trans ends.isInfix⟩

/-- A commit keeps the pieces runs of the bytes seen. -/
theorem unmixed_commit {chunkSize : Nat} (positive : 0 < chunkSize) {reader next : Reader}
    (unmixed : Unmixed chunkSize reader) (filled : 0 < reader.held.length)
    (log : next.log = reader.log ++ [.committed reader.held]) (empty : next.held = []) :
    Unmixed chunkSize next := by
  have seen : next.seen = reader.seen ++ reader.held := by
    simp [Reader.seen, log, Fate.bytes]
  obtain ⟨given, plain, ends⟩ := block_pieces positive unmixed (List.length_pos_iff.mp filled)
    (Cutting.markLast (reader.held.length < chunkSize) reader.held)
    (Cutting.mark_last_items _ _)
  constructor
  · rw [cutting_commit log, seen]
    intro piece member
    cases List.mem_append.mp member with
    | inl before =>
      obtain ⟨clean, within⟩ := unmixed.pieces piece before
      exact ⟨clean, within.trans (List.prefix_append _ _).isInfix⟩
    | inr after => exact given piece after
  · rw [cutting_commit log, seen]
    exact ⟨plain, ends.isInfix⟩
  · rw [cutting_commit log, seen]
    exact fun _ => ends
  · intro _ another
    exact absurd empty another

/-- Where a step does not join, the piece carried over is empty or full, or the bytes
start with the newline. -/
theorem parted_apart {chunkSize : Nat} (positive : 0 < chunkSize) {reader : Reader}
    {bytes : List Byte} (parts : ¬ reader.Joins chunkSize bytes)
    (keeping : reader.queueErr ≠ .emsgShouldDrop) (discarding : reader.afterDiscard = true)
    (empty : reader.held = []) :
    (reader.cutting chunkSize).2 = [] ∨ (reader.cutting chunkSize).2.length = chunkSize ∨
      bytes.head? = some newline := by
  have holds := Cutting.feed_holds positive newline (Cutting.holds_start chunkSize)
    (Cutting.markBlocks chunkSize reader.committed)
  rw [Cutting.mark_blocks_items, ← last_line_length] at holds
  by_cases starts : bytes.head? = some newline
  · exact Or.inr (Or.inr starts)
  · have multiple : chunkSize ∣ (lastLine reader.committed.flatten).length := by
      by_contra apart
      exact parts ⟨keeping, discarding, empty, starts, apart⟩
    by_cases none : (lastLine reader.committed.flatten).length = 0
    · exact Or.inl (holds.start none)
    · exact (holds.full none multiple).imp id Or.inl

/-- Bytes stored join the block; if it was empty, they do not join the piece carried
over. -/
theorem unmixed_stored {chunkSize : Nat} (positive : 0 < chunkSize) {reader next : Reader}
    {bytes : List Byte} (unmixed : Unmixed chunkSize reader)
    (keeping : reader.queueErr ≠ .emsgShouldDrop) (parts : ¬ reader.Joins chunkSize bytes)
    (log : next.log = reader.log) (grown : next.held = reader.held ++ bytes) :
    Unmixed chunkSize next := by
  by_cases empty : reader.held = []
  · have cutting : next.cutting chunkSize = reader.cutting chunkSize := by
      rw [Reader.cutting, Reader.cutting, Reader.committed, Reader.committed, log]
    have before : Unmixed chunkSize { next with block := none } :=
      unmixed_of_log unmixed log (Or.inl rfl)
    refine ⟨before.pieces, before.carried, before.recent, ?_⟩
    intro discarding _
    rw [cutting, grown, empty, List.nil_append]
    rw [Reader.afterDiscard, log] at discarding
    exact parted_apart positive parts keeping discarding empty
  · apply unmixed_of_log unmixed log
    rw [grown]
    exact Or.inr ⟨empty, List.prefix_append _ _⟩

/-- Every call that does not join keeps the pieces runs of the bytes seen. -/
theorem step_unmixed {chunkSize : Nat} (positive : 0 < chunkSize) {reader next : Reader}
    {event : ReaderEvent} (accounted : Accounted chunkSize reader)
    (unmixed : Unmixed chunkSize reader)
    (parts : ∀ bytes, event = .read (.data bytes) → ¬ reader.Joins chunkSize bytes)
    (taken : reader.step chunkSize event = some next) : Unmixed chunkSize next := by
  have kept (block : next.block = reader.block) (log : next.log = reader.log) :
      Unmixed chunkSize next := by
    have held : next.held = reader.held := by rw [Reader.held, Reader.held, block]
    apply unmixed_of_log unmixed log
    rw [held]
    by_cases empty : reader.held = []
    · exact Or.inl empty
    · exact Or.inr ⟨empty, List.prefix_rfl⟩
  by_cases quiet : event.quiet = true
  · obtain ⟨block, log, _⟩ := quiet_step quiet taken
    exact kept block log
  cases event with
  | created answer | registered answer | waited answer => exact absurd rfl quiet
  | pushed answer =>
    obtain ⟨standing, rfl⟩ := pushed_step taken
    have none : reader.block = none := stands_at accounted standing
    refine unmixed_of_log unmixed ?_ (Or.inl ?_)
    · rfl
    · by_cases reserved : answer = .ok <;> simp [Reader.afterPush, Reader.held, reserved, none]
  | read result =>
    cases result with
    | data bytes =>
      cases block : next.block with
      | none =>
        obtain ⟨_, _, _, log, _⟩ := discarded_step taken block
        exact unmixed_discarded unmixed log (held_of_none block)
      | some content =>
        obtain ⟨_, reserved, _, _, grown, log, _⟩ := stored_step accounted taken block
        apply unmixed_stored positive unmixed (by simp [reserved]) (parts bytes rfl) log
        rw [← grown, Reader.held, block, Option.getD_some]
    | eof | eintr | eagain | failed => exact absurd rfl quiet
  | committed =>
    obtain ⟨filled, none, log, _⟩ := commit_step positive accounted taken
    exact unmixed_commit positive unmixed filled log (held_of_none none)
  | finalized =>
    obtain ⟨_, _, block, log, _⟩ := finalized_step taken
    exact kept block log

/-! ### The records of a run -/

/-- A run whose steps do not join keeps the pieces runs of the bytes seen. -/
theorem run_unmixed {chunkSize : Nat} (positive : 0 < chunkSize) {stdin : List Byte}
    {state final : Pipeline} {schedule : List PipelineLabel} (paired : Paired chunkSize stdin state)
    (unmixed : Unmixed chunkSize state.reader)
    (parts : Schedules.Along (Pipeline.step chunkSize) (Pipeline.Parts chunkSize) state schedule)
    (completed : Schedules.run (Pipeline.step chunkSize) state schedule = some final) :
    Paired chunkSize stdin final ∧ Unmixed chunkSize final.reader := by
  have preserved (state : Pipeline) (label : PipelineLabel) (next : Pipeline)
      (both : Paired chunkSize stdin state ∧ Unmixed chunkSize state.reader)
      (apart : state.Parts chunkSize label) (taken : state.step chunkSize label = some next) :
      Paired chunkSize stdin next ∧ Unmixed chunkSize next.reader := by
    refine ⟨step_paired positive both.1 taken, ?_⟩
    rcases step_reader taken with same | ⟨event, goes, gives⟩
    · rw [same]
      exact both.2
    · refine step_unmixed positive both.1.accounted both.2 ?_ goes
      rintro bytes rfl
      obtain rfl : label = .call (.read (.data bytes)) := gives
      exact apart
  exact Schedules.run_guarded_invariant preserved ⟨paired, unmixed⟩ parts completed

/-- The pieces of a start of the committed blocks are among the pieces of all. -/
theorem earlier_pieces (chunkSize : Nat) {earlier blocks : List (List Byte)}
    (starts : earlier <+: blocks) :
    (Cutting.feed chunkSize newline [] (Cutting.markBlocks chunkSize earlier)).1 <+:
      (Cutting.feed chunkSize newline [] (Cutting.markBlocks chunkSize blocks)).1 := by
  obtain ⟨later, rfl⟩ := starts
  rw [Cutting.markBlocks, Cutting.markBlocks, List.flatMap_append, Cutting.feed_append]
  exact List.prefix_append _ _

/-- Every piece of unmixed blocks is a run of one line. -/
theorem piece_within {chunkSize : Nat} {lines : List (List Byte)} {state : Pipeline}
    (paired : Paired chunkSize (lines.flatMap fun line => line ++ [newline]) state)
    (unmixed : Unmixed chunkSize state.reader) {piece : List Byte}
    (member : piece ∈ (state.reader.cutting chunkSize).1) : ∃ line ∈ lines, piece <:+: line := by
  obtain ⟨plain, within⟩ := unmixed.pieces piece member
  have start : state.reader.seen <+: lines.flatMap fun line => line ++ [newline] := by
    rw [← paired.input, paired.accounted.bytes, List.append_assoc]
    exact List.prefix_append _ _
  apply Cutting.within_line plain lines ?_ (within.trans start.isInfix)
  rintro rfl
  have nothing : state.reader.seen = [] := List.prefix_nil.mp start
  have none : state.reader.committed = [] := by
    apply List.eq_nil_iff_forall_not_mem.mpr
    intro block among
    have sized := paired.accounted.sizes block among
    have empty : block = [] := by
      have inLog : block <:+: state.reader.seen := committed_in_log among
      rwa [nothing, List.infix_nil] at inLog
    simp [empty] at sized
  simp [Reader.cutting, none, Cutting.markBlocks, Cutting.feed] at member

/-- While no block joins the piece before discarded bytes, whatever start of the
committed blocks the writer takes gives records that are runs of single lines. -/
theorem dropping_unmixed {σ : Type} {ctx : WriterCtx} {emit : σ → List Byte → Option (σ × Errno)}
    (succeeds : WritesSucceed emit) (sink : σ) {capacity : Nat} (capacityPositive : 0 < capacity)
    (chunkPositive : 0 < ctx.chunkSize) (buffers : Nat → List Byte) (lines : List (List Byte))
    (schedule : List PipelineLabel) (final : Pipeline)
    (completed : Schedules.run (Pipeline.step ctx.chunkSize) (Pipeline.start capacity .drop buffers
      (lines.flatMap fun line => line ++ [newline])) schedule = some final)
    (parts : Schedules.Along (Pipeline.step ctx.chunkSize) (Pipeline.Parts ctx.chunkSize)
      (Pipeline.start capacity .drop buffers (lines.flatMap fun line => line ++ [newline]))
      schedule) :
    final.queue.popped <+: final.queue.committed.map Prod.snd ∧
      ∀ taken, taken <+: final.queue.committed.map Prod.snd →
        ∃ written, jpWriterProduce ctx emit sink taken = some (written, .ok) ∧
          ∀ payload ∈ payloads written, ∃ line ∈ lines, payload <:+: line := by
  obtain ⟨paired, unmixed⟩ := run_unmixed chunkPositive
    (start_paired capacityPositive .drop ctx.chunkSize buffers _) (start_unmixed _) parts completed
  obtain ⟨delivered, split, popped⟩ := paired.consistent.history
  constructor
  · rw [split, List.map_append, popped]
    exact List.prefix_append _ _
  · intro taken starts
    rw [paired.committed] at starts
    have fit : BlocksFit ctx.chunkSize taken := by
      intro block member
      exact paired.accounted.sizes block (starts.subset member)
    obtain ⟨written, produced, records, _⟩ := writer_completes ctx emit succeeds sink taken fit
    refine ⟨written, produced, ?_⟩
    intro payload member
    rw [payloads_of_records records] at member
    exact piece_within paired unmixed ((earlier_pieces ctx.chunkSize starts).subset member)

/-- The lines `ab`, `cd` and `ef`, read one at a time, the second while the queue is
full. -/
def wholeLineDropped : List PipelineLabel :=
  [.call (.created .ok), .call (.registered .ok), .call (.waited .ok), .push .pushLoadActive,
    .push .pushLoadLength, .call (.read (.data [0x61, 0x62, newline])), .call (.read .eagain),
    .commit, .call (.waited .ok), .push .pushLoadActive, .push .pushLoadLength, .push .pushLocked,
    .call (.read (.data [0x63, 0x64, newline])), .pop .popLoadLength, .pop .popRead,
    .pop .popCommit, .push .pushLoadActive, .push .pushLoadLength,
    .call (.read (.data [0x65, 0x66, newline])), .call (.read .eof), .commit, .pop .popLoadLength,
    .pop .popRead, .pop .popCommit]

/-- The first and the third line are recorded. -/
theorem whole_line_unmixed :
    ∃ final, Schedules.run (Pipeline.step 1024) (Pipeline.start 1 .drop (fun _ => [])
        ([[0x61, 0x62], [0x63, 0x64], [0x65, 0x66]].flatMap fun line => line ++ [newline]))
        wholeLineDropped = some final ∧
      ∃ written, jpWriterProduce (bareWriter 1024) takeAll () final.queue.popped =
          some (written, .ok) ∧
        ∀ payload ∈ payloads written,
          ∃ line ∈ ([[0x61, 0x62], [0x63, 0x64], [0x65, 0x66]] : List (List Byte)),
            payload <:+: line := by
  have ran : (Schedules.run (Pipeline.step 1024) (Pipeline.start 1 .drop (fun _ => [])
      ([[0x61, 0x62], [0x63, 0x64], [0x65, 0x66]].flatMap fun line => line ++ [newline]))
      wholeLineDropped).isSome = true := by decide
  obtain ⟨final, completed⟩ := Option.isSome_iff_exists.mp ran
  obtain ⟨popped, recorded⟩ := @dropping_unmixed Unit (bareWriter 1024) takeAll take_all_succeeds ()
    1 Nat.one_pos (by decide) (fun _ => []) [[0x61, 0x62], [0x63, 0x64], [0x65, 0x66]]
    wholeLineDropped final completed (by decide)
  exact ⟨final, completed, recorded final.queue.popped popped⟩

/-- The lines `ab` and `cd`; what is read between `a` and `d` finds the queue full. -/
def partsDropped : List PipelineLabel :=
  [.call (.created .ok), .call (.registered .ok), .call (.waited .ok), .push .pushLoadActive,
    .push .pushLoadLength, .call (.read (.data [0x61])), .call (.read .eagain), .commit,
    .call (.waited .ok), .push .pushLoadActive, .push .pushLoadLength, .push .pushLocked,
    .call (.read (.data [0x62, newline, 0x63])), .pop .popLoadLength, .pop .popRead,
    .pop .popCommit, .push .pushLoadActive, .push .pushLoadLength,
    .call (.read (.data [0x64, newline])), .call (.read .eof), .commit, .pop .popLoadLength,
    .pop .popRead, .pop .popCommit]

/-- The record holds the head of the one line and the tail of the other. -/
theorem parts_dropped_join :
    ∃ final, Schedules.run (Pipeline.step 1024) (Pipeline.start 1 .drop (fun _ => [])
        ([[0x61, 0x62], [0x63, 0x64]].flatMap fun line => line ++ [newline])) partsDropped =
        some final ∧
      ∃ written, jpWriterProduce (bareWriter 1024) takeAll () final.queue.popped =
          some (written, .ok) ∧
        payloads written = [[0x61, 0x64]] ∧
        ¬ ∃ line ∈ ([[0x61, 0x62], [0x63, 0x64]] : List (List Byte)), [0x61, 0x64] <:+: line := by
  have ran : (Schedules.run (Pipeline.step 1024) (Pipeline.start 1 .drop (fun _ => [])
      ([[0x61, 0x62], [0x63, 0x64]].flatMap fun line => line ++ [newline])) partsDropped).map
      (fun final => final.queue.popped) = some [[0x61], [0x64, newline]] := by decide
  obtain ⟨final, completed, popped⟩ := Option.map_eq_some_iff.mp ran
  refine ⟨final, completed, ?_⟩
  rw [popped]
  exact ⟨_, rfl, rfl, by decide⟩

end JPipe
