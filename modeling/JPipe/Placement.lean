import JPipe.ArenaRuns
import JPipe.Feeding
import Mathlib.Data.List.Basic

/-!
# The threads on the allocation

The reader hands `read` the address behind the bytes of its block, and the writer
goes over its block where it stands, while the other one works on other blocks of
the same allocation. Every run of the threads, under either policy and however they
are interleaved, can be taken in the allocation of the queue: no store leaves it,
and what a turn of the writer looks at is what the abstract queue says.
-/

namespace JPipe

section Placement

variable {layout : Layout}

/-- One step in the allocation, or none, matches a step of the queue that fills
nothing. -/
theorem plain_stored {arena : Arena layout} {queue next : Queue (List Byte)}
    {label : QueueLabel (List Byte)} (consistent : Consistent queue) (stored : LaidOut arena queue)
    (unfilling : ∀ content, label ≠ .fill content) (taken : queue.step label = some next) :
    ∃ plain after, arena.step (.queue plain) = some after ∧ LaidOut after next := by
  obtain ⟨plain, rfl⟩ := unfilling_lift unfilling
  obtain ⟨after, stepped, kept⟩ := queue_stored consistent stored taken
  exact ⟨plain, after, stepped, kept⟩

/-- A step of the threads is matched in the allocation. -/
theorem step_stored {stdin : List Byte} {state next : Pipeline} {label : PipelineLabel}
    {arena : Arena layout} (positive : 0 < layout.chunkSize)
    (paired : Paired layout.chunkSize stdin state) (stored : LaidOut arena state.queue)
    (taken : state.step layout.chunkSize label = some next) :
    ∃ steps after, Schedules.run Arena.step arena steps = some after ∧ LaidOut after next.queue := by
  have none (same : next.queue = state.queue) : ∃ steps after,
      Schedules.run Arena.step arena steps = some after ∧ LaidOut after next.queue :=
    ⟨[], arena, rfl, same ▸ stored⟩
  have one {step : QueueLabel (List Byte)} {queue : Queue (List Byte)}
      (unfilling : ∀ content, step ≠ .fill content) (stepped : state.queue.step step = some queue) :
      ∃ steps after, Schedules.run Arena.step arena steps = some after ∧ LaidOut after queue := by
    obtain ⟨plain, after, matched, kept⟩ := plain_stored paired.consistent stored unfilling stepped
    exact ⟨[.queue plain], after, (Schedules.run_cons_iff _ _ _ _ _).mpr ⟨after, matched, rfl⟩, kept⟩
  have left {party : Party} {before : Pipeline} (leaves : Leaves layout.chunkSize before party next) :
      next.queue = before.queue := by
    cases leaves <;> rfl
  have pushes {step : QueueLabel (List Byte)} (inside : step.inPush = true) (content : List Byte) :
      step ≠ .fill content := by
    rintro rfl
    simp [QueueLabel.inPush] at inside
  cases step_moves taken with
  | called | discarded | writeFailed => exact none rfl
  | stored bytes content reader queue _ goes block filled =>
    obtain ⟨_, _, _, some, content, _, _⟩ := stored_step paired.accounted goes block
    subst content
    obtain ⟨slot, holds, _⟩ := fill_cases filled
    have held : state.queue.blocks slot = state.reader.held := by
      rw [Reader.held, ← paired.held, Queue.held, holds, Option.getD_some]
    rw [← held] at filled
    have room : (state.queue.blocks slot).length + bytes.length ≤ layout.chunkSize := by
      have size := (step_accounted positive paired.accounted goes).size
      rw [Reader.held, block, Option.getD_some, List.length_append, ← held] at size
      exact size
    obtain ⟨after, stepped, kept⟩ := store_stored paired.consistent stored holds room filled
    exact ⟨[.store bytes], after, (Schedules.run_cons_iff _ _ _ _ _).mpr ⟨after, stepped, rfl⟩,
      kept⟩
  | pushing label queue _ inside stepped _ => exact one (pushes inside) stepped
  | refused label queue answer reader _ inside stepped _ _ => exact one (pushes inside) stepped
  | reserved label queue cleared slot reader _ inside stepped _ clears _ =>
    obtain ⟨plain, middle, matched, kept⟩ :=
      plain_stored paired.consistent stored (pushes inside) stepped
    obtain ⟨after, emptied, holds⟩ :=
      clear_stored (step_consistent paired.consistent stepped) kept clears
    refine ⟨[.queue plain, .clear], after, ?_, holds⟩
    simp [Schedules.run, matched, emptied]
  | committed queue reader stepped _ => exact @one .pushCommit queue (by simp) stepped
  | popped label queue _ inside stepped =>
    apply one _ stepped
    rintro content rfl
    simp [QueueLabel.inPop] at inside
  | entered party queue _ _ stepped => exact @one .finalizeLoad queue (by simp) stepped
  | found party queue _ _ _ stepped leaves =>
    rw [left leaves]
    exact @one .finalizeLoad queue (by simp) stepped
  | finalized party queue _ _ _ stepped leaves =>
    rw [left leaves]
    exact @one .finalizeLocked queue (by simp) stepped

section Threads

variable {σ : Type} {ctx : WriterCtx} {emit : σ → List Byte → Option (σ × Errno)}

/-- Every run of the threads and of the writer's loop is a run in the allocation, with
no store outside of it, and what a turn of the loop looks at stands there behind
`start_ptr`. -/
theorem engine_runs_in_arena (capacityPositive : 0 < layout.capacity)
    (chunkPositive : 0 < layout.chunkSize) (chunk : ctx.chunkSize = layout.chunkSize)
    (policy : Policy) (memory : Region Byte layout.totalSize) (stdin : List Byte) (sink : σ)
    (schedule : List EngineLabel) (final : Engine σ)
    (completed : Schedules.run (Engine.step ctx emit)
      (Engine.start layout.capacity policy (fun _ => []) stdin sink) schedule = some final) :
    ∃ created steps arena, Arena.create policy memory = some created ∧
      Schedules.run Arena.step created steps = some arena ∧
      LaidOut arena final.threads.queue ∧
      ∀ slot length, arena.queue.consumer = .reading slot length → final.unread ≠ [] →
        arena.memory.read (layout.data slot + final.startPtr) (length - final.startPtr) =
          some final.unread := by
  have simulated (engine : Engine σ) (label : EngineLabel) (next : Engine σ) (arena : Arena layout)
      (related : Paired ctx.chunkSize stdin engine.threads ∧ LaidOut arena engine.threads.queue)
      (taken : engine.step ctx emit label = some next) :
      ∃ steps after, Schedules.run Arena.step arena steps = some after ∧
        Paired ctx.chunkSize stdin next.threads ∧ LaidOut after next.threads.queue := by
    obtain ⟨paired, stored⟩ := related
    have positive : 0 < ctx.chunkSize := chunk ▸ chunkPositive
    have after : Paired ctx.chunkSize stdin next.threads :=
      engine_keeps (fun _ _ _ => step_paired positive) paired taken
    rw [chunk] at paired
    rcases engine_projects taken with ⟨step, _, stepped⟩ | ⟨_, same⟩ | ⟨_, stepped⟩
    · obtain ⟨steps, reached, ran, kept⟩ := step_stored chunkPositive paired stored (chunk ▸ stepped)
      exact ⟨steps, reached, ran, after, kept⟩
    · exact ⟨[], arena, rfl, after, same ▸ stored⟩
    · obtain ⟨steps, reached, ran, kept⟩ := step_stored chunkPositive paired stored (chunk ▸ stepped)
      exact ⟨steps, reached, ran, after, kept⟩
  obtain ⟨created, creates, fresh⟩ := create_stored capacityPositive policy memory
  obtain ⟨steps, arena, ran, paired, stored⟩ := Schedules.run_related simulated
    ⟨start_paired capacityPositive policy ctx.chunkSize (fun _ => []) stdin, fresh⟩ completed
  refine ⟨created, steps, arena, creates, ran, stored, ?_⟩
  intro slot length reads more
  obtain ⟨other, content, point⟩ := unread_reading more
  have control := congrArg Queue.consumer (laid_out_queue stored)
  rw [reads] at control
  simp only [Queue.map, point, ConsumerPoint.map, ConsumerPoint.reading.injEq] at control
  obtain ⟨rfl, rfl⟩ := control
  obtain ⟨rfl, _, rfl⟩ := paired.consistent.reading slot content point
  have left := unread_eq paired.consistent
  rw [point] at left
  simp only [ConsumerPoint.read, Option.map_some, Option.getD_some] at left
  rw [left] at more ⊢
  have inside : final.startPtr ≤ (final.threads.queue.blocks final.threads.queue.head).length := by
    by_contra beyond
    exact more (List.drop_of_length_le (by omega))
  have present : final.threads.queue.head < layout.capacity :=
    stored.capacity ▸ paired.consistent.inside
  exact Region.read_drop (stored.content _ present) inside

/-- The writer of the line `a` finds it where the reader stored it. -/
theorem one_line_in_arena :
    ∃ (created arena : Arena smallLayout) (steps : List ArenaLabel),
      Arena.create .wait ⟨List.replicate 456 0, List.length_replicate⟩ = some created ∧
      Schedules.run Arena.step created steps = some arena ∧
      arena.memory.read 452 2 = some [0x61, newline] := by
  have ran : (Schedules.run (Engine.step (bareWriter 4) takeAll)
      (Engine.start 1 .wait (fun _ => []) [0x61, newline] ()) (oneLine.take 10)).map
        (fun final => (final.threads.queue.consumer, final.startPtr, final.unread)) =
      some (.reading 0 [0x61, newline], 0, [0x61, newline]) := by decide
  obtain ⟨final, completed, seen⟩ := Option.map_eq_some_iff.mp ran
  simp only [Prod.mk.injEq] at seen
  obtain ⟨point, front, unread⟩ := seen
  obtain ⟨created, steps, arena, creates, matched, stored, placed⟩ :=
    @engine_runs_in_arena smallLayout Unit (bareWriter 4) takeAll Nat.one_pos (by decide) rfl .wait
      ⟨List.replicate 456 0, List.length_replicate⟩ [0x61, newline] () (oneLine.take 10) final
      completed
  refine ⟨created, arena, steps, creates, matched, ?_⟩
  have reads : arena.queue.consumer = .reading 0 2 := by
    rw [laid_out_queue stored]
    simp [Queue.map, point, ConsumerPoint.map]
  have found := placed 0 2 reads (by simp [unread])
  rw [front, unread] at found
  exact found

end Threads

end Placement

end JPipe
