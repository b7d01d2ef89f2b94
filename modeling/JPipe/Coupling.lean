import JPipe.Pairing
import JPipe.Schedules

/-!
# The queue and the reader under the waiting policy

While no call fails, the waiting policy adds to the agreement of the queue and the
reader that nothing is discarded: the bytes read are those committed and those in
the block.
-/

namespace JPipe

/-- No call of the reader and no write fails. -/
def PipelineLabel.faultless : PipelineLabel → Bool
  | .call (.created answer) => answer = .ok
  | .call (.registered answer) => answer = .ok
  | .call (.waited answer) => answer ≠ .ereadFailed
  | .call (.read .failed) => false
  | .writeFailed => false
  | _ => true

/-- Without a fault a quiet call leads out of the loop only at the end of file. -/
theorem quiet_ends {chunkSize : Nat} {reader next : Reader} {event : ReaderEvent}
    (quiet : event.quiet = true) (faultless : (PipelineLabel.call event).faultless = true)
    (taken : reader.step chunkSize event = some next)
    (ends : next.Over ∨ next.point = .commitEnd) : event = .read .eof := by
  have top (other : Reader) : ¬ (other.loopTop.Over ∨ other.loopTop.point = .commitEnd) := by
    by_cases none : other.block = none <;> simp [Reader.Over, Reader.loopTop, none]
  cases step_reads taken with
  | created answer standing | registered answer standing =>
    have succeeded : answer = .ok := by simpa [PipelineLabel.faultless] using faultless
    simp [Reader.Over, succeeded] at ends
  | waited answer standing =>
    have succeeded : answer ≠ .ereadFailed := by simpa [PipelineLabel.faultless] using faultless
    rcases after_wait_cases reader answer with ⟨failing, _⟩ | ⟨_, moved⟩ | ⟨_, _, moved⟩
    · exact absurd failing succeeded
    · rw [moved] at ends
      simp [Reader.Over] at ends
    · rw [moved] at ends
      exact absurd ends (top _)
  | ended standing => rfl
  | interrupted standing => exact absurd ends (top _)
  | drained standing =>
    by_cases partly : reader.queueErr = .ok ∧ reader.held.length > 0 <;>
      simp [Reader.Over, partly] at ends
  | failed standing => simp [PipelineLabel.faultless] at faultless
  | _ => simp [ReaderEvent.quiet] at quiet

/-! ### The queue and the reader agree -/

/-- A history without a failing `read` accounts for the block and the bytes. -/
def Reader.Fills (chunkSize : Nat) (reader : Reader) : Prop :=
  ∃ past, .read .failed ∉ past ∧ Filling chunkSize past reader

/-- A call that does not fail, with an answer of the waiting policy, extends the
history. -/
theorem step_fills {chunkSize : Nat} (positive : 0 < chunkSize) {reader next : Reader}
    {event : ReaderEvent} (fills : reader.Fills chunkSize)
    (taken : reader.step chunkSize event = some next) (waits : WaitAnswer event)
    (unfailed : event ≠ .read .failed) : next.Fills chunkSize := by
  obtain ⟨past, clean, filling⟩ := fills
  refine ⟨past ++ [event], ?_, step_filling positive filling waits taken⟩
  simpa [clean] using unfailed.symm

/-- The queue took what the reader committed and handed out the block it holds, and
the bytes read come before those to read. -/
structure Coupled (chunkSize : Nat) (stdin : List Byte) (state : Pipeline) : Prop where
  consistent : Consistent state.queue
  policy : state.queue.policy = .wait
  fills : state.reader.Fills chunkSize
  committed : state.queue.committed.map Prod.snd = state.reader.committed
  held : state.queue.held = state.reader.block
  input : state.reader.bytesRead ++ state.input = stdin

/-- The threads before their first step. -/
theorem start_coupled {capacity : Nat} (positive : 0 < capacity) (chunkSize : Nat)
    (blocks : Nat → List Byte) (stdin : List Byte) :
    Coupled chunkSize stdin (Pipeline.start capacity .wait blocks stdin) where
  consistent := create_consistent positive .wait blocks
  policy := rfl
  fills := ⟨[], by simp, start_filling chunkSize⟩
  committed := rfl
  held := rfl
  input := rfl

/-- The account of the bytes after any history. -/
theorem fills_accounted {chunkSize : Nat} {reader : Reader} (fills : reader.Fills chunkSize) :
    Accounted chunkSize reader := by
  obtain ⟨past, _, filling⟩ := fills
  exact filling.accounted

/-- Under the waiting policy the queue never asks to drop. -/
theorem fills_keeping {chunkSize : Nat} {reader : Reader} (fills : reader.Fills chunkSize) :
    reader.queueErr ≠ .emsgShouldDrop := by
  obtain ⟨past, _, filling⟩ := fills
  exact filling.answers

/-- Bytes read are in a block. -/
theorem data_held {chunkSize : Nat} {reader next : Reader} {bytes : List Byte}
    (fills : reader.Fills chunkSize)
    (taken : reader.step chunkSize (.read (.data bytes)) = some next) : next.block ≠ none := by
  obtain ⟨content, _, _, block, _⟩ := data_step (fills_keeping fills) taken
  simp [block]

/-- The agreement of the two accounts, whatever the policy. -/
theorem coupled_paired {chunkSize : Nat} {stdin : List Byte} {state : Pipeline}
    (coupled : Coupled chunkSize stdin state) : Paired chunkSize stdin state where
  consistent := coupled.consistent
  accounted := fills_accounted coupled.fills
  committed := coupled.committed
  held := coupled.held
  input := coupled.input

/-- Every step without a fault extends the history of the reader. -/
theorem faultless_fills {chunkSize : Nat} (positive : 0 < chunkSize) {state next : Pipeline}
    {label : PipelineLabel} (waits : state.queue.policy = .wait)
    (fills : state.reader.Fills chunkSize) (faultless : label.faultless = true)
    (taken : state.step chunkSize label = some next) : next.reader.Fills chunkSize := by
  rcases step_reader taken with same | ⟨event, goes, gives⟩
  · rw [same]
    exact fills
  · apply step_fills positive fills goes
    · cases event with
      | pushed answer => simpa [Pipeline.Gives, WaitAnswer, waits] using gives
      | _ => trivial
    · rintro rfl
      obtain rfl : label = .call (.read .failed) := gives
      simp [PipelineLabel.faultless] at faultless

/-- Every step without a fault keeps the agreement. -/
theorem step_coupled {chunkSize : Nat} (positive : 0 < chunkSize) {stdin : List Byte}
    {state next : Pipeline} {label : PipelineLabel} (coupled : Coupled chunkSize stdin state)
    (faultless : label.faultless = true) (taken : state.step chunkSize label = some next) :
    Coupled chunkSize stdin next := by
  have paired := step_paired positive (coupled_paired coupled) taken
  constructor
  · exact paired.consistent
  · exact step_keeps (fun _ _ _ => step_policy) coupled.policy taken
  · exact faultless_fills positive coupled.policy coupled.fills faultless taken
  · exact paired.committed
  · exact paired.held
  · exact paired.input

end JPipe
