import JPipe.Coupling
import JPipe.Pipeline
import JPipe.QueueSafety
import JPipe.Schedules
import Mathlib.Data.List.Basic

/-!
# What the writer has popped when it leaves

The writer leaves when it finds the queue empty and finalized, so at that moment it
has popped everything committed. What may go wrong comes after: a reader that was
handed a block before the queue was finalized, or is past the load of `active`,
goes on to fill that block and commits it to nobody. A run in which the reader is
settled whenever the writer leaves loses no block.
-/

namespace JPipe

/-- The reader commits no more blocks to a finalized queue: it is past its loop, or
has no block and is not past the load of `active`, or has nothing left to store. -/
def Pipeline.Settled (state : Pipeline) : Prop :=
  state.reader.Over ∨ (state.reader.block = none ∧ state.queue.producer ≠ .loadLength) ∨
    (state.reader.held = [] ∧ state.input = [])

/-- Where the writer is about to be answered that the queue is finalized, the reader
is settled. -/
def Pipeline.Settles (state : Pipeline) (label : PipelineLabel) : Prop :=
  label = .pop .popLocked → state.queue.length = 0 → state.queue.active = false → state.Settled

instance (state : Pipeline) : Decidable state.Settled :=
  inferInstanceAs (Decidable ((_ ∨ _) ∨ (_ ∧ _) ∨ (_ ∧ _)))

instance (state : Pipeline) (label : PipelineLabel) : Decidable (state.Settles label) :=
  inferInstanceAs (Decidable (_ → _ → _ → _))

/-- A writer that left its loop found the queue finalized and used up, and the reader
settled. -/
def Pipeline.Drained (state : Pipeline) : Prop :=
  state.writer ≠ .running →
    state.queue.active = false ∧ state.Settled ∧
      state.queue.popped = state.queue.committed.map Prod.snd

/-- The writer starts in its loop. -/
theorem start_drained (capacity : Nat) (blocks : Nat → List Byte) (stdin : List Byte) :
    (Pipeline.start capacity .wait blocks stdin).Drained := fun left => absurd rfl left

/-- A reader without a block holds nothing it could commit. -/
theorem unblocked_held {reader : Reader} (filled : 0 < reader.held.length) :
    reader.block ≠ none := by
  intro none
  simp [held_of_none none] at filled

/-- A step that the producer does not see and the reader takes no part in leaves the
reader settled. -/
theorem unseen_settled {state next : Pipeline} (settled : state.Settled)
    (unseen : Unseen state.queue next.queue) (reader : next.reader = state.reader)
    (input : next.input = state.input) : next.Settled := by
  rw [Pipeline.Settled, reader, input]
  rcases settled with past | ⟨none, unloaded⟩ | idle
  · exact Or.inl past
  · exact Or.inr (Or.inl ⟨none, fun loading => unloaded (unseen.loading.mp loading)⟩)
  · exact Or.inr (Or.inr idle)

/-- After `jp_queue_finalize` the reader stays settled. -/
theorem leaves_settled {chunkSize : Nat} {state next : Pipeline} {party : Party}
    (settled : state.Settled) (leaves : Leaves chunkSize state party next) : next.Settled := by
  cases leaves with
  | reader reader taken => exact Or.inl (Or.inr (finalized_step taken).2.1)
  | writer => exact settled
  | watcher => exact settled

/-- After the finalization a settled reader stays settled and commits nothing. -/
theorem step_settled {chunkSize : Nat} (positive : 0 < chunkSize) {stdin : List Byte}
    {state next : Pipeline} {label : PipelineLabel} (coupled : Coupled chunkSize stdin state)
    (inactive : state.queue.active = false) (settled : state.Settled)
    (taken : state.step chunkSize label = some next) :
    next.Settled ∧ next.queue.committed = state.queue.committed := by
  have reserving (standing : state.reader.point = .reserve) : ¬ state.reader.Over := by
    simp [Reader.Over, standing]
  have apart {queue : Queue (List Byte)} {calls : Party → Nat}
      (unseen : Unseen state.queue queue) :
      Pipeline.Settled { state with queue := queue, finalizing := calls } :=
    unseen_settled settled unseen rfl rfl
  cases step_moves taken with
  | called event reader quiet ended goes =>
    obtain ⟨block, _, _⟩ := quiet_step quiet goes
    refine ⟨?_, rfl⟩
    rcases settled with past | ⟨none, unloaded⟩ | ⟨nothing, consumed⟩
    · obtain ⟨rfl, _⟩ := over_step past goes
      simp [ReaderEvent.quiet] at quiet
    · exact Or.inr (Or.inl ⟨block.trans none, unloaded⟩)
    · refine Or.inr (Or.inr ⟨?_, consumed⟩)
      change reader.block.getD [] = []
      rw [block]
      exact nothing
  | discarded bytes reader _ goes unheld =>
    exact absurd unheld (data_held coupled.fills goes)
  | stored bytes content reader queue arrived goes _ filled =>
    obtain ⟨before, block, filling, _⟩ := data_step (fills_keeping coupled.fills) goes
    rcases settled with past | ⟨none, _⟩ | ⟨_, consumed⟩
    · exact absurd (over_step past goes).1 (by simp)
    · simp [none] at block
    · rw [consumed, List.prefix_nil] at arrived
      simp [arrived] at filling
  | pushing label queue standing inside stepped unheld =>
    obtain ⟨point, rfl⟩ := push_moves inside stepped
    refine ⟨?_, rfl⟩
    rcases settled with past | ⟨none, unloaded⟩ | idle
    · exact absurd past (reserving standing)
    · exact Or.inr (Or.inl ⟨none, (finalized_unreserved inactive unloaded inside stepped).1⟩)
    · exact Or.inr (Or.inr idle)
  | refused label queue answer reader standing inside stepped answered goes =>
    obtain ⟨rfl, _⟩ := wait_refused coupled.policy inside stepped answered
    obtain ⟨_, rfl⟩ := pushed_step goes
    obtain ⟨point, rfl⟩ := push_moves inside stepped
    exact ⟨Or.inl (Or.inl rfl), rfl⟩
  | reserved label queue cleared slot reader standing inside stepped holds clears goes =>
    obtain ⟨_, rfl⟩ := pushed_step goes
    rcases settled with past | ⟨none, unloaded⟩ | ⟨_, consumed⟩
    · exact absurd past (reserving standing)
    · exact absurd holds ((finalized_unreserved inactive unloaded inside stepped).2 slot)
    · obtain ⟨point, rfl⟩ := push_moves inside stepped
      obtain ⟨other, _, rfl⟩ := fill_cases clears
      exact ⟨Or.inr (Or.inr ⟨rfl, consumed⟩), rfl⟩
  | committed queue reader stepped goes =>
    obtain ⟨filled, _⟩ := commit_step positive (fills_accounted coupled.fills) goes
    rcases settled with past | ⟨none, _⟩ | ⟨nothing, _⟩
    · exact absurd (over_step past goes).1 (by simp)
    · exact absurd none (unblocked_held filled)
    · simp [nothing] at filled
  | popped label queue _ inside stepped =>
    obtain ⟨unseen, _⟩ := pop_unseen inside stepped
    exact ⟨unseen_settled settled unseen rfl rfl, unseen.committed⟩
  | writeFailed _ => exact ⟨settled, rfl⟩
  | entered party queue _ _ stepped =>
    obtain ⟨unseen, _⟩ := finalize_load_unseen stepped
    exact ⟨apart unseen, unseen.committed⟩
  | found party queue _ _ _ stepped leaves =>
    obtain ⟨unseen, _⟩ := finalize_load_unseen stepped
    rw [leaves_queue leaves]
    exact ⟨leaves_settled (apart unseen) leaves, unseen.committed⟩
  | finalized party queue _ _ _ stepped leaves =>
    obtain ⟨unseen, _⟩ := finalize_locked_unseen stepped
    rw [leaves_queue leaves]
    exact ⟨leaves_settled (apart unseen) leaves, unseen.committed⟩

/-- A writer past its loop pops nothing more. -/
theorem left_step {chunkSize : Nat} {state next : Pipeline} {label : PipelineLabel}
    (left : state.writer ≠ .running) (taken : state.step chunkSize label = some next) :
    next.writer ≠ .running ∧ next.queue.popped = state.queue.popped := by
  have leaving {other : Pipeline} {party : Party} (leaves : Leaves chunkSize other party next)
      (away : other.writer ≠ .running) : next.writer ≠ .running := by
    cases leaves with
    | reader reader taken => exact away
    | writer => simp
    | watcher => exact away
  constructor
  · cases step_moves taken with
    | popped label queue running _ _ => exact absurd running left
    | writeFailed running => exact absurd running left
    | found party queue _ _ _ _ leaves => exact leaving leaves left
    | finalized party queue _ _ _ _ leaves => exact leaving leaves left
    | _ => exact left
  · obtain ⟨labels, ran, outside⟩ := step_projects taken
    have pops (before : Queue (List Byte)) (label : QueueLabel (List Byte))
        (after : Queue (List Byte)) (same : before.popped = state.queue.popped)
        (silent : label.inPop = false) (stepped : before.step label = some after) :
        after.popped = state.queue.popped := (popped_kept silent stepped).trans same
    exact Schedules.run_guarded_invariant pops rfl (Schedules.along_of_forall (outside left)) ran

/-- Without a failing write the writer leaves its loop only when it is answered that
the queue is finalized. -/
theorem leaving_step {chunkSize : Nat} {state next : Pipeline} {label : PipelineLabel}
    (running : state.writer = .running) (left : next.writer ≠ .running)
    (faultless : label.faultless = true) (taken : state.step chunkSize label = some next) :
    label = .pop .popLocked ∧ state.queue.length = 0 ∧ state.queue.active = false := by
  have away {other : Pipeline} {party : Party} (leaves : Leaves chunkSize other party next)
      (stands : state.finalizes party = true) (same : other.writer = state.writer) : False := by
    cases leaves with
    | reader reader taken => exact left (same.trans running)
    | writer => simp [Pipeline.finalizes, running] at stands
    | watcher => exact left (same.trans running)
  cases step_moves taken with
  | popped label queue _ inside stepped =>
    by_cases answered : queue.consumer = .outside .eshuttingDown
    · obtain ⟨rfl, found⟩ := pop_answered inside stepped answered
      exact ⟨rfl, found⟩
    · simp [answered] at left
  | writeFailed _ => simp [PipelineLabel.faultless] at faultless
  | found party queue _ stands _ _ leaves => exact (away leaves stands rfl).elim
  | finalized party queue _ stands _ _ leaves => exact (away leaves stands rfl).elim
  | _ => exact absurd running left

/-- Every step that meets the guard keeps the writer drained. -/
theorem step_drained {chunkSize : Nat} (positive : 0 < chunkSize) {stdin : List Byte}
    {state next : Pipeline} {label : PipelineLabel} (coupled : Coupled chunkSize stdin state)
    (drained : state.Drained) (settles : state.Settles label) (faultless : label.faultless = true)
    (taken : state.step chunkSize label = some next) : next.Drained := by
  intro left
  by_cases running : state.writer = .running
  · obtain ⟨rfl, empty, inactive⟩ := leaving_step running left faultless taken
    have settled : state.Settled := settles rfl empty inactive
    have used := empty_popped coupled.consistent empty
    obtain ⟨stays, _⟩ := step_settled positive coupled inactive settled taken
    cases step_moves taken with
    | popped _ queue _ inside stepped =>
      obtain ⟨_, active⟩ := pop_unseen inside stepped
      obtain ⟨committed, popped⟩ := step_history stepped (by simp) (by simp)
      refine ⟨active.trans inactive, stays, ?_⟩
      change queue.popped = queue.committed.map Prod.snd
      rw [popped, committed]
      exact used
  · obtain ⟨inactive, settled, used⟩ := drained running
    obtain ⟨_, popped⟩ := left_step running taken
    obtain ⟨stays, committed⟩ := step_settled positive coupled inactive settled taken
    refine ⟨step_keeps (fun _ _ _ => finalized_stays) inactive taken, stays, ?_⟩
    rw [popped, committed]
    exact used

/-- A run without a fault keeps the agreement. -/
theorem run_coupled {chunkSize : Nat} (positive : 0 < chunkSize) {stdin : List Byte}
    {state final : Pipeline} {schedule : List PipelineLabel}
    (coupled : Coupled chunkSize stdin state)
    (faultless : ∀ label ∈ schedule, label.faultless = true)
    (completed : Schedules.run (Pipeline.step chunkSize) state schedule = some final) :
    Coupled chunkSize stdin final :=
  Schedules.run_guarded_invariant (fun _ _ _ => step_coupled positive) coupled
    (Schedules.along_of_forall faultless) completed

/-- A run without a fault that meets the guard keeps the writer drained. -/
theorem run_drained {chunkSize : Nat} (positive : 0 < chunkSize) {stdin : List Byte}
    {state final : Pipeline} {schedule : List PipelineLabel}
    (coupled : Coupled chunkSize stdin state) (drained : state.Drained)
    (faultless : ∀ label ∈ schedule, label.faultless = true)
    (settles : Schedules.Along (Pipeline.step chunkSize) Pipeline.Settles state schedule)
    (completed : Schedules.run (Pipeline.step chunkSize) state schedule = some final) :
    final.Drained := by
  have preserved (before : Pipeline) (label : PipelineLabel) (after : Pipeline)
      (both : Coupled chunkSize stdin before ∧ before.Drained)
      (guarded : before.Settles label ∧ label.faultless = true)
      (taken : before.step chunkSize label = some after) :
      Coupled chunkSize stdin after ∧ after.Drained :=
    ⟨step_coupled positive both.1 guarded.2 taken,
      step_drained positive both.1 both.2 guarded.1 guarded.2 taken⟩
  have guarded := Schedules.along_and settles (Schedules.along_of_forall faultless)
  exact (Schedules.run_guarded_invariant preserved ⟨coupled, drained⟩ guarded completed).2

/-- In a run without a fault, in which the reader is settled whenever the writer is
answered that the queue is finalized, a writer that left has popped every block
committed, and no block is committed after it left. -/
theorem left_drained {capacity chunkSize : Nat} (capacityPositive : 0 < capacity)
    (chunkPositive : 0 < chunkSize) (blocks : Nat → List Byte) (stdin : List Byte)
    (schedule : List PipelineLabel) (final : Pipeline)
    (completed : Schedules.run (Pipeline.step chunkSize)
      (Pipeline.start capacity .wait blocks stdin) schedule = some final)
    (faultless : ∀ label ∈ schedule, label.faultless = true)
    (settles : Schedules.Along (Pipeline.step chunkSize) Pipeline.Settles
      (Pipeline.start capacity .wait blocks stdin) schedule) :
    (final.writer ≠ .running → final.queue.popped = final.reader.committed) ∧
      ∀ earlier later middle, schedule = earlier ++ later →
        Schedules.run (Pipeline.step chunkSize) (Pipeline.start capacity .wait blocks stdin)
          earlier = some middle →
        middle.writer ≠ .running → final.reader.committed = middle.reader.committed := by
  have start := start_coupled capacityPositive chunkSize blocks stdin
  have drains {past : List PipelineLabel} {state : Pipeline}
      (clean : ∀ label ∈ past, label.faultless = true)
      (guarded : Schedules.Along (Pipeline.step chunkSize) Pipeline.Settles
        (Pipeline.start capacity .wait blocks stdin) past)
      (ran : Schedules.run (Pipeline.step chunkSize) (Pipeline.start capacity .wait blocks stdin)
        past = some state)
      (left : state.writer ≠ .running) : state.queue.popped = state.reader.committed := by
    rw [← (run_coupled chunkPositive start clean ran).committed]
    exact (run_drained chunkPositive start (start_drained _ _ _) clean guarded ran left).2.2
  refine ⟨drains faultless settles completed, ?_⟩
  rintro earlier later middle rfl ran left
  have following : Schedules.run (Pipeline.step chunkSize) middle later = some final := by
    rwa [Schedules.run_append, ran, Option.bind_some] at completed
  have stays (before : Pipeline) (label : PipelineLabel) (after : Pipeline)
      (frozen : before.writer ≠ .running ∧ before.queue.popped = middle.queue.popped)
      (taken : before.step chunkSize label = some after) :
      after.writer ≠ .running ∧ after.queue.popped = middle.queue.popped := by
    obtain ⟨away, popped⟩ := left_step frozen.1 taken
    exact ⟨away, popped.trans frozen.2⟩
  have frozen := Schedules.run_invariant stays ⟨left, rfl⟩ following
  rw [← drains faultless settles completed frozen.1, frozen.2]
  exact drains (fun label member => faultless label (List.mem_append_left _ member))
    (Schedules.along_start settles) ran left

/-- A signal after the commit of the last block. -/
def signalAfterCommit : List PipelineLabel :=
  [.call (.created .ok), .call (.registered .ok), .call (.waited .ok), .push .pushLoadActive,
    .push .pushLoadLength, .call (.read (.data [0x61])), .call (.read .eagain), .commit,
    .finalizeLoad .watcher, .finalizeLocked .watcher, .call (.waited .ok), .push .pushLoadActive,
    .finalizeLoad .reader, .pop .popLoadLength, .pop .popRead, .pop .popCommit, .pop .popLoadLength,
    .pop .popLocked, .finalizeLoad .writer]

/-- The writer pops the block before it leaves. -/
theorem signal_after_commit_drained :
    ∃ final, Schedules.run (Pipeline.step 1024) (Pipeline.start 1 .wait (fun _ => []) [0x61])
        signalAfterCommit = some final ∧
      final.writer = .returned ∧ final.queue.popped = final.reader.committed := by
  have ran : (Schedules.run (Pipeline.step 1024) (Pipeline.start 1 .wait (fun _ => []) [0x61])
      signalAfterCommit).map Pipeline.writer = some .returned := by decide
  obtain ⟨final, completed, left⟩ := Option.map_eq_some_iff.mp ran
  have drained := left_drained Nat.one_pos (by decide) (fun _ => []) [0x61] signalAfterCommit
    final completed (by decide) (by decide)
  exact ⟨final, completed, left, drained.1 (by simp [left])⟩

/-- A signal between the reservation of a block and its first byte, up to the return
of the writer. -/
def signalInFill : List PipelineLabel :=
  [.call (.created .ok), .call (.registered .ok), .call (.waited .ok), .push .pushLoadActive,
    .push .pushLoadLength, .finalizeLoad .watcher, .finalizeLocked .watcher, .pop .popLoadLength,
    .pop .popLocked, .finalizeLoad .writer]

/-- The rest of the run: the reader fills the block, commits it at the end of file
and returns. -/
def fillAfterSignal : List PipelineLabel :=
  [.call (.read (.data [0x61])), .call (.read .eof), .commit, .finalizeLoad .reader]

/-- The block is committed after the writer left and popped by nobody. -/
theorem signal_in_fill_loses :
    (∀ label ∈ signalInFill ++ fillAfterSignal, label.faultless = true) ∧
      (∃ middle, Schedules.run (Pipeline.step 1024) (Pipeline.start 1 .wait (fun _ => []) [0x61])
          signalInFill = some middle ∧
        middle.writer = .returned ∧ middle.reader.committed = []) ∧
      ∃ final, Schedules.run (Pipeline.step 1024) (Pipeline.start 1 .wait (fun _ => []) [0x61])
          (signalInFill ++ fillAfterSignal) = some final ∧
        final.reader.point = .returned ∧ final.writer = .returned ∧
        final.reader.committed = [[0x61]] ∧ final.queue.popped = [] := by
  refine ⟨by decide, ?_, ?_⟩
  · have ran : (Schedules.run (Pipeline.step 1024) (Pipeline.start 1 .wait (fun _ => []) [0x61])
        signalInFill).map (fun middle => (middle.writer, middle.reader.committed)) =
        some (.returned, []) := by decide
    obtain ⟨middle, completed, seen⟩ := Option.map_eq_some_iff.mp ran
    exact ⟨middle, completed, Prod.mk.inj seen⟩
  · have ran : (Schedules.run (Pipeline.step 1024) (Pipeline.start 1 .wait (fun _ => []) [0x61])
        (signalInFill ++ fillAfterSignal)).map (fun final =>
          ((final.reader.point, final.writer), final.reader.committed, final.queue.popped)) =
        some ((.returned, .returned), [[0x61]], []) := by decide
    obtain ⟨final, completed, seen⟩ := Option.map_eq_some_iff.mp ran
    obtain ⟨points, blocks⟩ := Prod.mk.inj seen
    obtain ⟨past, left⟩ := Prod.mk.inj points
    exact ⟨final, completed, past, left, Prod.mk.inj blocks⟩

/-! ### The condition is needed -/

/-- The writer left, and there is a block it has not popped or one still to come. -/
def Pipeline.Doomed (state : Pipeline) : Prop :=
  state.writer ≠ .running ∧
    ((¬ state.Settled ∧ state.queue.popped = state.queue.committed.map Prod.snd) ∨
      state.queue.popped.length < state.queue.committed.length)

/-- What an unsettled reader still has. -/
theorem unsettled_iff (state : Pipeline) :
    ¬ state.Settled ↔ ¬ state.reader.Over ∧
      (state.reader.block = none → state.queue.producer = .loadLength) ∧
      (state.reader.held = [] → state.input ≠ []) := by
  simp [Pipeline.Settled]

/-- A quiet call without a fault leaves the loop only with nothing to store. -/
theorem quiet_unsettled {chunkSize : Nat} {state : Pipeline} {event : ReaderEvent}
    {reader : Reader} (accounted : Accounted chunkSize state.reader)
    (unsettled : ¬ state.Settled) (quiet : event.quiet = true)
    (faultless : (PipelineLabel.call event).faultless = true)
    (ended : event = .read .eof → state.input = [])
    (taken : state.reader.step chunkSize event = some reader) : ¬ reader.Over := by
  intro past
  obtain ⟨_, _, leftover⟩ := (unsettled_iff state).mp unsettled
  obtain rfl := quiet_ends quiet faultless taken (Or.inl past)
  have holding : state.reader.held ≠ [] := fun none => leftover none (ended rfl)
  have filled : 0 < state.reader.held.length := List.length_pos_iff.mpr holding
  cases block : state.reader.block with
  | none => exact unblocked_held filled block
  | some content =>
    have queueErr := accounted.reserved content block
    cases step_reads taken with
    | ended standing => simp [Reader.Over, queueErr, filled] at past

/-- A step without a fault leaves an unsettled reader unsettled, or commits a block
nobody pops. -/
theorem unsettled_step {chunkSize : Nat} {stdin : List Byte} {state next : Pipeline}
    {label : PipelineLabel} (coupled : Coupled chunkSize stdin state)
    (left : state.writer ≠ .running) (unsettled : ¬ state.Settled)
    (used : state.queue.popped = state.queue.committed.map Prod.snd)
    (faultless : label.faultless = true) (taken : state.step chunkSize label = some next) :
    (¬ next.Settled ∧ next.queue.popped = next.queue.committed.map Prod.snd) ∨
      next.queue.popped.length < next.queue.committed.length := by
  have accounted := fills_accounted coupled.fills
  have empty : state.queue.length = 0 := popped_empty coupled.consistent used
  have room : state.queue.length < state.queue.capacity := empty ▸ coupled.consistent.positive
  obtain ⟨going, unblocked, leftover⟩ := (unsettled_iff state).mp unsettled
  have loading (standing : state.reader.point = .reserve) :
      state.queue.producer = .loadLength := unblocked (stands_at accounted standing)
  have apart {queue : Queue (List Byte)} {calls : Party → Nat} {writer : WriterPoint}
      (unseen : Unseen state.queue queue) (silent : queue.popped = state.queue.popped) :
      ¬ Pipeline.Settled { state with queue := queue, finalizing := calls, writer := writer } ∧
        queue.popped = queue.committed.map Prod.snd := by
    constructor
    · apply (unsettled_iff _).mpr
      exact ⟨going, fun none => unseen.loading.mpr (unblocked none), leftover⟩
    · rw [silent, unseen.committed, used]
  have leaving {queue : Queue (List Byte)} {calls : Party → Nat} {party : Party}
      (unseen : Unseen state.queue queue) (silent : queue.popped = state.queue.popped)
      (leaves : Leaves chunkSize { state with queue := queue, finalizing := calls } party next) :
      ¬ next.Settled ∧ next.queue.popped = next.queue.committed.map Prod.snd := by
    cases leaves with
    | reader reader goes => exact absurd (Or.inl (finalized_step goes).1) going
    | writer => exact apart unseen silent
    | watcher => exact apart unseen silent
  cases step_moves taken with
  | called event reader quiet ended goes =>
    obtain ⟨block, _, _⟩ := quiet_step quiet goes
    refine Or.inl ⟨(unsettled_iff _).mpr ⟨?_, ?_, ?_⟩, used⟩
    · exact quiet_unsettled accounted unsettled quiet faultless ended goes
    · exact fun none => unblocked (block.symm.trans none)
    · intro none
      apply leftover
      rw [Reader.held, ← block]
      exact none
  | discarded bytes reader _ goes unheld => exact absurd unheld (data_held coupled.fills goes)
  | stored bytes content reader queue _ goes block filled =>
    obtain ⟨before, _, filling, grown, _, _, standing⟩ :=
      data_step (fills_keeping coupled.fills) goes
    obtain ⟨slot, _, rfl⟩ := fill_cases filled
    refine Or.inl ⟨(unsettled_iff _).mpr ⟨?_, ?_, ?_⟩, used⟩
    · cases standing <;> simp_all [Reader.Over]
    · intro none
      simp [block] at none
    · intro none
      rw [Reader.held, grown, Option.getD_some, List.append_eq_nil_iff] at none
      simp [none.2] at filling
  | pushing label queue standing inside stepped unheld =>
    exact absurd (loading_reserved (loading standing) room inside stepped) (unheld _)
  | refused label queue answer reader standing inside stepped answered _ =>
    have reserved := loading_reserved (loading standing) room inside stepped
    simp [answered] at reserved
  | reserved label queue cleared slot reader standing inside stepped _ clears goes =>
    obtain ⟨_, rfl⟩ := pushed_step goes
    obtain ⟨point, rfl⟩ := push_moves inside stepped
    obtain ⟨other, _, rfl⟩ := fill_cases clears
    refine Or.inl ⟨(unsettled_iff _).mpr ⟨?_, ?_, ?_⟩, used⟩
    · simp [Reader.Over, Reader.afterPush]
    · simp [Reader.afterPush]
    · intro _
      exact leftover (held_of_none (stands_at accounted standing))
  | committed queue reader stepped _ =>
    obtain ⟨slot, _, rfl⟩ := push_commit_cases stepped
    right
    simp [used]
  | popped label queue running _ _ => exact absurd running left
  | writeFailed running => exact absurd running left
  | entered party queue _ _ stepped =>
    obtain ⟨unseen, _, silent⟩ := finalize_load_unseen stepped
    exact Or.inl (apart unseen silent)
  | found party queue _ _ _ stepped leaves =>
    obtain ⟨unseen, _, silent⟩ := finalize_load_unseen stepped
    exact Or.inl (leaving unseen silent leaves)
  | finalized party queue _ _ _ stepped leaves =>
    obtain ⟨unseen, _, silent⟩ := finalize_locked_unseen stepped
    exact Or.inl (leaving unseen silent leaves)

/-- Every step without a fault of doomed threads leaves them doomed. -/
theorem step_doomed {chunkSize : Nat} {stdin : List Byte} {state next : Pipeline}
    {label : PipelineLabel} (coupled : Coupled chunkSize stdin state)
    (doomed : state.Doomed) (faultless : label.faultless = true)
    (taken : state.step chunkSize label = some next) : next.Doomed := by
  obtain ⟨left, lost⟩ := doomed
  obtain ⟨away, popped⟩ := left_step left taken
  refine ⟨away, ?_⟩
  rcases lost with ⟨unsettled, used⟩ | lost
  · exact unsettled_step coupled left unsettled used faultless taken
  · have kept (queue : Queue (List Byte)) (label : QueueLabel (List Byte))
        (after : Queue (List Byte)) (grown : state.queue.committed <+: queue.committed)
        (stepped : queue.step label = some after) : state.queue.committed <+: after.committed :=
      grown.trans (committed_grows stepped)
    have grows : state.queue.committed <+: next.queue.committed :=
      step_keeps kept List.prefix_rfl taken
    have longer := grows.length_le
    right
    rw [popped]
    omega

/-- A writer that is answered while the reader is not settled leaves doomed threads. -/
theorem answered_doomed {chunkSize : Nat} {stdin : List Byte} {state next : Pipeline}
    {label : PipelineLabel} (coupled : Coupled chunkSize stdin state)
    (fails : ¬ state.Settles label) (taken : state.step chunkSize label = some next) :
    next.Doomed := by
  simp only [Pipeline.Settles, Classical.not_imp] at fails
  obtain ⟨rfl, empty, inactive, unsettled⟩ := fails
  cases step_moves taken with
  | popped _ queue _ _ stepped =>
    obtain ⟨_, ⟨_, active, _⟩ | ⟨_, _, rfl⟩ | ⟨filled, _⟩⟩ := pop_locked_cases stepped
    · simp [inactive] at active
    · have used := empty_popped coupled.consistent empty
      refine ⟨by simp, Or.inl ⟨?_, used⟩⟩
      exact (unsettled_iff _).mpr ((unsettled_iff state).mp unsettled)
    · omega

/-- A run without a fault to the end of both threads pops every block committed exactly
when the reader is settled whenever the writer is answered that the queue is
finalized. -/
theorem returned_drained_iff {capacity chunkSize : Nat} (capacityPositive : 0 < capacity)
    (chunkPositive : 0 < chunkSize) (blocks : Nat → List Byte) (stdin : List Byte)
    (schedule : List PipelineLabel) (final : Pipeline)
    (completed : Schedules.run (Pipeline.step chunkSize)
      (Pipeline.start capacity .wait blocks stdin) schedule = some final)
    (faultless : ∀ label ∈ schedule, label.faultless = true)
    (readerReturned : final.reader.point = .returned) (left : final.writer ≠ .running) :
    final.queue.popped = final.reader.committed ↔
      Schedules.Along (Pipeline.step chunkSize) Pipeline.Settles
        (Pipeline.start capacity .wait blocks stdin) schedule := by
  have start := start_coupled capacityPositive chunkSize blocks stdin
  have coupled := run_coupled chunkPositive start faultless completed
  rw [← coupled.committed]
  constructor
  · intro used
    rcases Schedules.along_or_fails Pipeline.Settles completed with
      settles | ⟨earlier, label, later, middle, next, rfl, ran, fails, taken, following⟩
    · exact settles
    · have clean : ∀ label ∈ later, label.faultless = true := fun other member =>
        faultless other (List.mem_append_right _ (List.mem_cons_of_mem label member))
      have before := run_coupled chunkPositive start
        (fun other member => faultless other (List.mem_append_left _ member)) ran
      have after := step_coupled chunkPositive before (faultless label (by simp)) taken
      have preserved (state : Pipeline) (label : PipelineLabel) (next : Pipeline)
          (both : Coupled chunkSize stdin state ∧ state.Doomed) (clean : label.faultless = true)
          (taken : state.step chunkSize label = some next) :
          Coupled chunkSize stdin next ∧ next.Doomed :=
        ⟨step_coupled chunkPositive both.1 clean taken,
          step_doomed both.1 both.2 clean taken⟩
      obtain ⟨_, _, lost⟩ := Schedules.run_guarded_invariant preserved
        ⟨after, answered_doomed before fails taken⟩ (Schedules.along_of_forall clean) following
      rcases lost with ⟨unsettled, _⟩ | lost
      · exact absurd (Or.inl (Or.inr readerReturned)) unsettled
      · simp [used] at lost
  · intro settles
    exact (run_drained chunkPositive start (start_drained _ _ _) faultless settles completed
      left).2.2

end JPipe
