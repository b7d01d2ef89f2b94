import JPipe.Pipeline
import JPipe.Writer
import JPipe.Schedules
import Mathlib.Data.List.Basic

/-!
# The writer at work on the queue

The three threads together with what `jp_writer_produce` does to the block it
holds. The writer reads the block where it stands, in the memory of the queue: a
turn of its inner loop looks at the bytes from `start_ptr` to `end_ptr` at the
moment it is taken, while the reader goes on filling other blocks. The block is
given back when `start_ptr` has reached `end_ptr`, and a record that cannot be
written ends the loop with the block still held.

Between the turns the other threads may take any number of steps. Handing a
record to the descriptor is the parameter it is for the writer alone, so every
behaviour of the descriptor is covered.
-/

namespace JPipe

/-- The slot and the content of the block the consumer has begun to read. -/
def ConsumerPoint.read {β : Type} : ConsumerPoint β → Option (Nat × β)
  | .reading slot content => some (slot, content)
  | _ => none

/-- The threads, and the variables of `jp_writer_produce`: `start_ptr` as an offset
into the block it holds, the overflow with the records handed over so far, and
`err`. -/
structure Engine (σ : Type) where
  threads : Pipeline
  startPtr : Nat
  writer : Writer σ
  err : Errno

/-- A step of one of the threads outside of the writer's inner loop, or one turn of
that loop. -/
inductive EngineLabel where
  | thread (label : PipelineLabel)
  | turn
deriving DecidableEq, Repr

section Steps

variable {σ : Type}

/-- The threads before their first step. -/
def Engine.start (capacity : Nat) (policy : Policy) (blocks : Nat → List Byte)
    (stdin : List Byte) (sink : σ) : Engine σ where
  threads := Pipeline.start capacity policy blocks stdin
  startPtr := 0
  writer := { overflow := [], records := [], sink := sink }
  err := .ok

/-- The bytes from `start_ptr` to `end_ptr`, as they stand in the queue now. -/
def Engine.unread (engine : Engine σ) : List Byte :=
  match engine.threads.queue.consumer.read with
  | some (slot, content) =>
    ((engine.threads.queue.blocks slot).take content.length).drop engine.startPtr
  | none => []

/-- A step of a thread. Taking up a block puts `start_ptr` at its front, and the block
is given back when it is used up; `err` keeps the answer that ends the loop. -/
def Engine.thread (chunkSize : Nat) (engine : Engine σ) (label : PipelineLabel) :
    Option (Engine σ) :=
  if label ≠ .writeFailed ∧ (label = .pop .popCommit → engine.unread = []) then
    (engine.threads.step chunkSize label).map fun threads =>
      { engine with
        threads := threads
        startPtr := if label = .pop .popRead then 0 else engine.startPtr
        err := if threads.queue.consumer = .outside .eshuttingDown then .eshuttingDown
          else engine.err }
  else none

/-- One turn of the inner loop, up to the test of `start_ptr` against `end_ptr`. -/
def Engine.turn (ctx : WriterCtx) (emit : σ → List Byte → Option (σ × Errno))
    (engine : Engine σ) : Option (Engine σ) :=
  if engine.threads.writer = .running ∧ engine.unread ≠ [] then
    let turn := innerTurn ctx.chunkSize engine.writer.overflow engine.unread
    let startPtr := engine.startPtr + (engine.unread.length - turn.rest.length)
    match turn.payload with
    | none =>
      some { engine with
        startPtr := startPtr, writer := { engine.writer with overflow := turn.overflow } }
    | some payload =>
      (writeRecord ctx emit engine.writer payload).bind fun (written, err) =>
        if err = .ok then
          some { engine with
            startPtr := startPtr, writer := { written with overflow := turn.overflow } }
        else
          engine.threads.writeFailed.map fun threads =>
            { engine with threads := threads, writer := written, err := err }
  else none

/-- One step of the engine. -/
def Engine.step (ctx : WriterCtx) (emit : σ → List Byte → Option (σ × Errno))
    (engine : Engine σ) : EngineLabel → Option (Engine σ)
  | .thread label => engine.thread ctx.chunkSize label
  | .turn => engine.turn ctx emit

/-! ### What one step can do -/

variable {ctx : WriterCtx} {emit : σ → List Byte → Option (σ × Errno)}

/-- A step of a thread is one of the pipeline. -/
theorem thread_cases {engine next : Engine σ} {label : PipelineLabel}
    (taken : engine.step ctx emit (.thread label) = some next) :
    label ≠ .writeFailed ∧ (label = .pop .popCommit → engine.unread = []) ∧
      engine.threads.step ctx.chunkSize label = some next.threads ∧
      next.startPtr = (if label = .pop .popRead then 0 else engine.startPtr) ∧
      next.writer = engine.writer ∧
      next.err = (if next.threads.queue.consumer = .outside .eshuttingDown then .eshuttingDown
        else engine.err) := by
  rw [Engine.step, Engine.thread] at taken
  split at taken
  · rename_i admitted
    obtain ⟨threads, stepped, rfl⟩ := Option.map_eq_some_iff.mp taken
    exact ⟨admitted.1, admitted.2, stepped, rfl, rfl, rfl⟩
  · simp at taken

/-- A turn carries bytes on, writes a record, or fails to write one. -/
inductive Turns (ctx : WriterCtx) (emit : σ → List Byte → Option (σ × Errno))
    (engine : Engine σ) : Engine σ → Prop where
  | carried (turn : Turn) (running : engine.threads.writer = .running)
      (unread : engine.unread ≠ [])
      (made : turn = innerTurn ctx.chunkSize engine.writer.overflow engine.unread)
      (silent : turn.payload = none) :
      Turns ctx emit engine { engine with
        startPtr := engine.startPtr + (engine.unread.length - turn.rest.length)
        writer := { engine.writer with overflow := turn.overflow } }
  | wrote (turn : Turn) (payload : List Byte) (sink : σ)
      (running : engine.threads.writer = .running) (unread : engine.unread ≠ [])
      (made : turn = innerTurn ctx.chunkSize engine.writer.overflow engine.unread)
      (cut : turn.payload = some payload)
      (emitted : emit engine.writer.sink (recordOf ctx payload).encoded = some (sink, .ok)) :
      Turns ctx emit engine { engine with
        startPtr := engine.startPtr + (engine.unread.length - turn.rest.length)
        writer := {
          overflow := turn.overflow
          records := engine.writer.records ++ [recordOf ctx payload]
          sink := sink } }
  | failed (turn : Turn) (payload : List Byte) (sink : σ) (err : Errno)
      (running : engine.threads.writer = .running) (unread : engine.unread ≠ [])
      (made : turn = innerTurn ctx.chunkSize engine.writer.overflow engine.unread)
      (cut : turn.payload = some payload)
      (emitted : emit engine.writer.sink (recordOf ctx payload).encoded = some (sink, err))
      (failing : err ≠ .ok) :
      Turns ctx emit engine { engine with
        threads := { engine.threads with writer := .cleanUp }
        writer := {
          overflow := engine.writer.overflow
          records := engine.writer.records ++ [recordOf ctx payload]
          sink := sink }
        err := err }

/-- A failing write is a step of the pipeline that only moves the writer. -/
theorem write_failed_cases {state next : Pipeline} (taken : state.writeFailed = some next) :
    next = { state with writer := .cleanUp } := by
  unfold Pipeline.writeFailed at taken
  split at taken
  · exact (Option.some.inj taken).symm
  · simp at taken

/-- Every turn is one of these. -/
theorem turn_cases {engine next : Engine σ} (taken : engine.step ctx emit .turn = some next) :
    Turns ctx emit engine next := by
  rw [Engine.step, Engine.turn] at taken
  split at taken
  · rename_i working
    obtain ⟨running, unread⟩ := working
    cases cut : (innerTurn ctx.chunkSize engine.writer.overflow engine.unread).payload with
    | none =>
      simp only [cut] at taken
      obtain rfl := Option.some.inj taken
      exact .carried _ running unread rfl cut
    | some payload =>
      simp only [cut, writeRecord] at taken
      obtain ⟨⟨written, err⟩, handed, following⟩ := Option.bind_eq_some_iff.mp taken
      obtain ⟨⟨sink, answer⟩, emitted, same⟩ := Option.map_eq_some_iff.mp handed
      obtain ⟨rfl, rfl⟩ := Prod.mk.inj same
      by_cases succeeded : answer = .ok
      · subst succeeded
        obtain rfl := Option.some.inj following
        exact .wrote _ payload sink running unread rfl cut emitted
      · simp only [succeeded, ↓reduceIte] at following
        obtain ⟨threads, left, rfl⟩ := Option.map_eq_some_iff.mp following
        obtain rfl := write_failed_cases left
        exact .failed _ payload sink answer running unread rfl cut emitted succeeded
  · simp at taken

/-- A block is being read where there is something left of one. -/
theorem unread_reading {engine : Engine σ} (unread : engine.unread ≠ []) :
    ∃ slot content, engine.threads.queue.consumer = .reading slot content := by
  cases point : engine.threads.queue.consumer with
  | reading slot content => exact ⟨slot, content, rfl⟩
  | _ => simp [Engine.unread, ConsumerPoint.read, point] at unread

/-- The threads of the engine take steps of the pipeline: the labelled one, none at
all in a turn, or the failing write. -/
theorem engine_projects {engine next : Engine σ} {label : EngineLabel}
    (taken : engine.step ctx emit label = some next) :
    (∃ step, label = .thread step ∧
        engine.threads.step ctx.chunkSize step = some next.threads) ∨
      (label = .turn ∧ next.threads = engine.threads) ∨
      (label = .turn ∧
        engine.threads.step ctx.chunkSize .writeFailed = some next.threads) := by
  cases label with
  | thread step => exact Or.inl ⟨step, rfl, (thread_cases taken).2.2.1⟩
  | turn =>
    cases turn_cases taken with
    | carried | wrote => exact Or.inr (Or.inl ⟨rfl, rfl⟩)
    | failed turn payload sink err running unread _ _ _ _ =>
      obtain ⟨slot, content, point⟩ := unread_reading unread
      refine Or.inr (Or.inr ⟨rfl, ?_⟩)
      simp [Pipeline.step, Pipeline.writeFailed, running, point]

/-- What every step of the pipeline keeps, every step of the engine keeps. -/
theorem engine_keeps {invariant : Pipeline → Prop}
    (preserved : ∀ state label after, invariant state →
      state.step ctx.chunkSize label = some after → invariant after)
    {engine next : Engine σ} {label : EngineLabel} (initial : invariant engine.threads)
    (taken : engine.step ctx emit label = some next) : invariant next.threads := by
  rcases engine_projects taken with ⟨step, _, stepped⟩ | ⟨_, same⟩ | ⟨_, stepped⟩
  · exact preserved _ _ _ initial stepped
  · exact same ▸ initial
  · exact preserved _ _ _ initial stepped

/-- The threads of a run of the engine run as a pipeline. -/
theorem engine_refines_pipeline {engine final : Engine σ} {schedule : List EngineLabel}
    (completed : Schedules.run (Engine.step ctx emit) engine schedule = some final) :
    ∃ steps, Schedules.run (Pipeline.step ctx.chunkSize) engine.threads steps =
      some final.threads := by
  have single {state after : Pipeline} {step : PipelineLabel}
      (stepped : state.step ctx.chunkSize step = some after) :
      Schedules.run (Pipeline.step ctx.chunkSize) state [step] = some after :=
    (Schedules.run_cons_iff _ _ _ _ _).mpr ⟨after, stepped, rfl⟩
  have simulated (before : Engine σ) (label : EngineLabel) (after : Engine σ) (_ : True)
      (taken : before.step ctx emit label = some after) :
      ∃ steps, Schedules.run (Pipeline.step ctx.chunkSize) before.threads steps =
        some after.threads := by
    rcases engine_projects taken with ⟨step, _, stepped⟩ | ⟨_, same⟩ | ⟨_, stepped⟩
    · exact ⟨[step], single stepped⟩
    · exact ⟨[], congrArg some same.symm⟩
    · exact ⟨[.writeFailed], single stepped⟩
  exact Schedules.run_projects Engine.threads (fun _ _ _ _ _ => trivial) simulated trivial
    completed

end Steps

end JPipe
