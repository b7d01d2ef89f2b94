import JPipe.Coupling
import JPipe.Shutdown
import JPipe.Pipeline
import JPipe.Schedules
import Mathlib.Data.List.Basic

/-!
# The stream through the queue

Without a signal the reader itself finalizes the queue, after its last commit, so
the reader is settled whenever the writer leaves. When both threads have returned
the writer has popped the whole input, in blocks of at least one byte and at most
`chunk_size`.
-/

namespace JPipe

/-- No signal arrives: the watcher never calls `jp_queue_finalize`. -/
def PipelineLabel.unsignalled : PipelineLabel → Bool
  | .finalizeLoad .watcher => false
  | _ => true

/-- Without a signal the reader finalizes the queue, at the end of the input. -/
structure Unsignalled (state : Pipeline) : Prop where
  watcher : state.finalizing .watcher = 0
  finalized : state.queue.active = false → state.reader.point = .returned
  ended : state.reader.Over ∨ state.reader.point = .commitEnd → state.input = []

/-- The threads before their first step. -/
theorem start_unsignalled (capacity : Nat) (blocks : Nat → List Byte) (stdin : List Byte) :
    Unsignalled (Pipeline.start capacity .wait blocks stdin) := by
  constructor
  · rfl
  · intro inactive
    simp [Pipeline.start, jpQueueCreate] at inactive
  · intro ended
    simp [Pipeline.start, Reader.start, Reader.Over] at ended

/-- A step of the producer or the consumer that finalizes nothing keeps this, if the
reader, where it is past its loop, was so before. -/
theorem active_unsignalled {state next : Pipeline} (unsignalled : Unsignalled state)
    (calls : next.finalizing = state.finalizing) (active : next.queue.active = state.queue.active)
    (returned : state.reader.point = .returned → next.reader.point = .returned)
    (ended : next.reader.Over ∨ next.reader.point = .commitEnd → next.input = []) :
    Unsignalled next := by
  constructor
  · rw [calls]
    exact unsignalled.watcher
  · intro inactive
    exact returned (unsignalled.finalized (active.symm.trans inactive))
  · exact ended

/-- A returned reader takes no step. -/
theorem returned_step {chunkSize : Nat} {reader next : Reader} {event : ReaderEvent}
    (taken : reader.step chunkSize event = some next) : reader.point ≠ .returned := by
  intro returned
  obtain ⟨rfl, _⟩ := over_step (Or.inr returned) taken
  obtain ⟨standing, _⟩ := finalized_step taken
  simp [returned] at standing

/-- A step of the reader keeps the state unsignalled if it changes neither the calls of
`jp_queue_finalize` nor `active`, and leads past the reader's loop only at the end of the
input. -/
theorem reader_unsignalled {chunkSize : Nat} {state next : Pipeline} {event : ReaderEvent}
    (unsignalled : Unsignalled state)
    (taken : state.reader.step chunkSize event = some next.reader)
    (calls : next.finalizing = state.finalizing) (active : next.queue.active = state.queue.active)
    (ended : next.reader.Over ∨ next.reader.point = .commitEnd → next.input = []) :
    Unsignalled next :=
  active_unsignalled unsignalled calls active
    (fun returned => absurd returned (returned_step taken)) ended

/-- Every step without a fault and without a signal keeps this. -/
theorem step_unsignalled {chunkSize : Nat} (positive : 0 < chunkSize) {stdin : List Byte}
    {state next : Pipeline} {label : PipelineLabel} (coupled : Coupled chunkSize stdin state)
    (drained : state.Drained) (unsignalled : Unsignalled state)
    (faultless : label.faultless = true) (silent : label.unsignalled = true)
    (taken : state.step chunkSize label = some next) : Unsignalled next := by
  cases step_moves taken with
  | called event reader quiet ended goes =>
    refine reader_unsignalled unsignalled goes rfl rfl fun past => ?_
    exact ended (quiet_ends quiet faultless goes past)
  | discarded bytes reader _ goes unheld =>
    exact absurd unheld (data_held coupled.fills goes)
  | stored bytes content reader queue _ goes _ filled =>
    obtain ⟨_, _, _, _, _, _, standing⟩ := data_step (fills_keeping coupled.fills) goes
    obtain ⟨slot, _, rfl⟩ := fill_cases filled
    refine reader_unsignalled unsignalled goes rfl rfl fun past => ?_
    cases standing <;> simp_all [Reader.Over]
  | pushing label queue standing inside stepped _ =>
    obtain ⟨point, rfl⟩ := push_moves inside stepped
    exact active_unsignalled unsignalled rfl rfl id unsignalled.ended
  | refused label queue answer reader standing inside stepped answered goes =>
    obtain ⟨_, inactive⟩ := wait_refused coupled.policy inside stepped answered
    exact absurd (unsignalled.finalized inactive) (returned_step goes)
  | reserved label queue cleared slot reader standing inside stepped _ clears goes =>
    obtain ⟨_, rfl⟩ := pushed_step goes
    obtain ⟨point, rfl⟩ := push_moves inside stepped
    obtain ⟨other, _, rfl⟩ := fill_cases clears
    refine reader_unsignalled unsignalled goes rfl rfl fun past => ?_
    simp [Reader.Over, Reader.afterPush] at past
  | committed queue reader stepped goes =>
    obtain ⟨_, _, _, _, ends⟩ := commit_step positive (fills_accounted coupled.fills) goes
    obtain ⟨slot, _, rfl⟩ := push_commit_cases stepped
    refine reader_unsignalled unsignalled goes rfl rfl fun past => ?_
    exact unsignalled.ended (Or.inr (ends past))
  | popped label queue _ inside stepped =>
    exact active_unsignalled unsignalled rfl (pop_unseen inside stepped).2 id unsignalled.ended
  | writeFailed _ => exact active_unsignalled unsignalled rfl rfl id unsignalled.ended
  | entered party queue stands active stepped =>
    have other : party ≠ .watcher := by
      rintro rfl
      simp [PipelineLabel.unsignalled] at silent
    obtain ⟨_, kept, _⟩ := finalize_load_unseen stepped
    constructor
    · change Function.update state.finalizing party _ .watcher = 0
      rw [Function.update_of_ne other.symm]
      exact unsignalled.watcher
    · intro inactive
      exact unsignalled.finalized (kept.symm.trans inactive)
    · exact unsignalled.ended
  | found party queue _ stands inactive stepped leaves =>
    obtain ⟨_, kept, _⟩ := finalize_load_unseen stepped
    have moved : Unsignalled { state with queue := queue } :=
      active_unsignalled unsignalled rfl kept id unsignalled.ended
    cases leaves with
    | reader reader goes => exact absurd (unsignalled.finalized inactive) (returned_step goes)
    | writer => exact { moved with }
    | watcher => exact moved
  | finalized party queue _ stands called stepped leaves =>
    have other : party ≠ .watcher := by
      rintro rfl
      simp [unsignalled.watcher] at called
    have watcher : Function.update state.finalizing party (state.finalizing party - 1) .watcher =
        0 := by
      rw [Function.update_of_ne other.symm]
      exact unsignalled.watcher
    cases leaves with
    | reader reader goes =>
      obtain ⟨standing, returned, _⟩ := finalized_step goes
      exact ⟨watcher, fun _ => returned, fun _ => unsignalled.ended (Or.inl (Or.inl standing))⟩
    | writer =>
      have left : state.writer ≠ .running := by
        intro running
        simp [Pipeline.finalizes, running] at stands
      have returned := unsignalled.finalized (drained left).1
      exact ⟨watcher, fun _ => returned, unsignalled.ended⟩
    | watcher => exact absurd rfl other

/-- Without a signal the reader is settled whenever the queue is finalized. -/
theorem unsignalled_settles {state : Pipeline} (unsignalled : Unsignalled state)
    (label : PipelineLabel) : state.Settles label := by
  intro _ _ inactive
  exact Or.inl (Or.inr (unsignalled.finalized inactive))

/-- A reader that returned without a failing `read` committed all it read. -/
theorem returned_committed {chunkSize : Nat} {reader : Reader} (fills : reader.Fills chunkSize)
    (returned : reader.point = .returned) : reader.committed.flatten = reader.bytesRead := by
  obtain ⟨past, clean, filling⟩ := fills
  have nothing : reader.held = [] := by
    cases fills_at filling returned with
    | inl settled => exact settled.1
    | inr failed => exact absurd failed.2.2 clean
  rw [filling.accounted.bytes, nothing, filling.kept, List.flatMap_map, List.append_nil]
  exact List.flatMap_id'.symm

/-- Without a fault and without a signal, when both threads have returned, the blocks
popped make up the input, and none of them is empty or longer than a chunk. -/
theorem stream_delivered {capacity chunkSize : Nat} (capacityPositive : 0 < capacity)
    (chunkPositive : 0 < chunkSize) (blocks : Nat → List Byte) (stdin : List Byte)
    (schedule : List PipelineLabel) (final : Pipeline)
    (completed : Schedules.run (Pipeline.step chunkSize)
      (Pipeline.start capacity .wait blocks stdin) schedule = some final)
    (faultless : ∀ label ∈ schedule, label.faultless = true)
    (silent : ∀ label ∈ schedule, label.unsignalled = true)
    (readerReturned : final.reader.point = .returned) (writerReturned : final.writer = .returned) :
    final.queue.popped.flatten = stdin ∧
      ∀ block ∈ final.queue.popped, 1 ≤ block.length ∧ block.length ≤ chunkSize := by
  have preserved (before : Pipeline) (label : PipelineLabel) (after : Pipeline)
      (all : Coupled chunkSize stdin before ∧ before.Drained ∧ Unsignalled before)
      (admitted : label.faultless = true ∧ label.unsignalled = true)
      (taken : before.step chunkSize label = some after) :
      Coupled chunkSize stdin after ∧ after.Drained ∧ Unsignalled after := by
    obtain ⟨coupled, drained, unsignalled⟩ := all
    have settles : before.Settles label := unsignalled_settles unsignalled label
    exact ⟨step_coupled chunkPositive coupled admitted.1 taken,
      step_drained chunkPositive coupled drained settles admitted.1 taken,
      step_unsignalled chunkPositive coupled drained unsignalled admitted.1 admitted.2 taken⟩
  have guarded : Schedules.Along (Pipeline.step chunkSize)
      (fun _ label => label.faultless = true ∧ label.unsignalled = true)
      (Pipeline.start capacity .wait blocks stdin) schedule :=
    Schedules.along_of_forall fun label member => ⟨faultless label member, silent label member⟩
  obtain ⟨coupled, drained, unsignalled⟩ := Schedules.run_guarded_invariant preserved
    ⟨start_coupled capacityPositive chunkSize blocks stdin, start_drained capacity blocks stdin,
      start_unsignalled capacity blocks stdin⟩ guarded completed
  have popped : final.queue.popped = final.reader.committed := by
    rw [← coupled.committed]
    exact (drained (by simp [writerReturned])).2.2
  have consumed : final.input = [] := unsignalled.ended (Or.inl (Or.inr readerReturned))
  rw [popped]
  constructor
  · rw [returned_committed coupled.fills readerReturned, ← coupled.input, consumed,
      List.append_nil]
  · exact (fills_accounted coupled.fills).sizes

/-- Two blocks through a ring of capacity one: the reader waits for the writer, the
end of the input finalizes the queue. -/
def twoBlocks : List PipelineLabel :=
  [.call (.created .ok), .call (.registered .ok), .call (.waited .etryagain), .call (.waited .ok),
    .push .pushLoadActive, .push .pushLoadLength, .call (.read (.data [0x61])),
    .call (.read .eintr), .call (.read (.data [0x62])), .commit, .push .pushLoadActive,
    .push .pushLoadLength, .push .pushLocked, .pop .popLoadLength, .pop .popRead, .pop .popCommit,
    .push .pushLocked, .call (.read (.data [0x63])), .call (.read .eof), .commit,
    .finalizeLoad .reader, .pop .popLoadLength, .finalizeLocked .reader, .pop .popRead,
    .pop .popCommit, .pop .popLoadLength, .pop .popLocked, .finalizeLoad .writer]

/-- The writer pops the three bytes in two blocks. -/
theorem two_blocks_delivered :
    ∃ final, Schedules.run (Pipeline.step 2)
        (Pipeline.start 1 .wait (fun _ => []) [0x61, 0x62, 0x63]) twoBlocks = some final ∧
      final.queue.popped.flatten = [0x61, 0x62, 0x63] := by
  have ran : (Schedules.run (Pipeline.step 2)
      (Pipeline.start 1 .wait (fun _ => []) [0x61, 0x62, 0x63]) twoBlocks).map
        (fun final => (final.reader.point, final.writer)) = some (.returned, .returned) := by decide
  obtain ⟨final, completed, points⟩ := Option.map_eq_some_iff.mp ran
  obtain ⟨past, left⟩ := Prod.mk.inj points
  have delivered := stream_delivered Nat.one_pos (by decide) (fun _ => []) [0x61, 0x62, 0x63]
    twoBlocks final completed (by decide) (by decide) past left
  exact ⟨final, completed, delivered.1⟩

end JPipe
