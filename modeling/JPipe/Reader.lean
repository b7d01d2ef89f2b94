import JPipe.Schedules
import JPipe.Errno
import Mathlib.Data.List.Basic

/-!
# The reader loop

`jp_reader_consume` between its calls: each call of the poller, of the queue and
of `read` is an event that carries the answer, and the reader stands at the next
call to make. The block is the one reserved and not committed yet, as the bytes
below its `length`; a commit gives it up, also at the end of file, where the code
keeps the pointer without using it again.

Beside the variables of the function the state keeps all bytes that `read`
stored, and what became of them: committed with a block, or discarded while the
queue answered `JP_EMSG_SHOULD_DROP`.
-/

namespace JPipe

/-- One answer of `read`: a positive count with its bytes, 0, or an error. -/
inductive ReadResult where
  | data (bytes : List Byte)
  | eof
  | eintr
  | eagain
  | failed
deriving DecidableEq, Repr

/-- The calls the reader makes, with their answers. -/
inductive ReaderEvent where
  | created (answer : Errno)
  | registered (answer : Errno)
  | waited (answer : Errno)
  | pushed (answer : Errno)
  | read (result : ReadResult)
  | committed
  | finalized
deriving DecidableEq, Repr

/-- The call the reader makes next. The three commits are those of a full block,
of the last block at the end of file, and of a partly filled block on `EAGAIN`. -/
inductive ReaderPoint where
  | create
  | register
  | wait
  | reserve
  | read
  | commitFull
  | commitEnd
  | commitAgain
  | cleanUp
  | returned
deriving DecidableEq, Repr

/-- What became of bytes that were read. -/
inductive Fate where
  | committed (bytes : List Byte)
  | discarded (bytes : List Byte)
deriving DecidableEq, Repr

/-- The bytes, whatever became of them. -/
def Fate.bytes : Fate → List Byte
  | .committed bytes => bytes
  | .discarded bytes => bytes

/-- The variables of `jp_reader_consume` and what happened to the bytes read. -/
structure Reader where
  point : ReaderPoint
  err : Errno
  queueErr : Errno
  block : Option (List Byte)
  bytesRead : List Byte
  log : List Fate
deriving DecidableEq, Repr

/-- The start of `jp_reader_consume`. -/
def Reader.start : Reader where
  point := .create
  err := .ok
  queueErr := .ok
  block := none
  bytesRead := []
  log := []

/-- The bytes of the block, if there is one. -/
def Reader.held (reader : Reader) : List Byte := reader.block.getD []

/-- The blocks committed so far. -/
def Reader.committed (reader : Reader) : List (List Byte) :=
  reader.log.filterMap fun
    | .committed bytes => some bytes
    | .discarded _ => none

/-- The top of the inner loop: reserve a block if there is none, then read. -/
def Reader.loopTop (reader : Reader) : Reader :=
  { reader with point := if reader.block = none then .reserve else .read }

/-- `jp_queue_push_commit` on the block. -/
def Reader.commit (reader : Reader) : Reader :=
  { reader with block := none, log := reader.log ++ [.committed reader.held] }

/-- After `jp_poller_wait`. -/
def Reader.afterWait (reader : Reader) (answer : Errno) : Reader :=
  let answered := { reader with err := answer }
  if answer = .ereadFailed then { answered with point := .cleanUp }
  else if answer = .etryagain then { answered with point := .wait }
  else answered.loopTop

/-- After `jp_queue_push_uncommitted`. -/
def Reader.afterPush (reader : Reader) (answer : Errno) : Reader :=
  { reader with
    queueErr := answer
    block := if answer = .ok then some [] else reader.block
    point := if answer = .eshuttingDown then .cleanUp else .read }

/-- After a `read` that stored nothing. -/
def Reader.afterNoData (reader : Reader) : ReadResult → Option Reader
  | .data _ => none
  | .eof =>
    some { reader with
      point := if reader.queueErr = .ok ∧ reader.held.length > 0 then .commitEnd else .cleanUp }
  | .eintr => some reader.loopTop
  | .eagain =>
    some { reader with
      point := if reader.queueErr = .ok ∧ reader.held.length > 0 then .commitAgain else .wait }
  | .failed => some { reader with err := .ereadFailed, point := .cleanUp }

/-- After `read`: into the buffer for bytes to drop, or into the block. Reading
into a block that is not there has no next state. -/
def Reader.afterRead (chunkSize : Nat) (reader : Reader) (result : ReadResult) : Option Reader :=
  if reader.queueErr = .emsgShouldDrop then
    match result with
    | .data bytes =>
      if 0 < bytes.length ∧ bytes.length ≤ chunkSize then
        some (Reader.loopTop { reader with
          bytesRead := reader.bytesRead ++ bytes
          log := reader.log ++ [.discarded bytes] })
      else none
    | other => reader.afterNoData other
  else
    match reader.block with
    | none => none
    | some content =>
      match result with
      | .data bytes =>
        if 0 < bytes.length ∧ bytes.length ≤ chunkSize - content.length then
          let stored := { reader with
            block := some (content ++ bytes), bytesRead := reader.bytesRead ++ bytes }
          if (content ++ bytes).length = chunkSize then some { stored with point := .commitFull }
          else some stored.loopTop
        else none
      | other => reader.afterNoData other

/-- One call of `jp_reader_consume` and what follows up to the next. -/
def Reader.step (chunkSize : Nat) (reader : Reader) (event : ReaderEvent) : Option Reader :=
  match reader.point, event with
  | .create, .created answer =>
    some { reader with
      err := answer, point := if answer = .ok then .register else .cleanUp }
  | .register, .registered answer =>
    some { reader with
      err := answer, point := if answer = .ok then .wait else .cleanUp }
  | .wait, .waited answer => some (reader.afterWait answer)
  | .reserve, .pushed answer => some (reader.afterPush answer)
  | .read, .read result => reader.afterRead chunkSize result
  | .commitFull, .committed => some reader.commit.loopTop
  | .commitEnd, .committed => some { reader.commit with point := .cleanUp }
  | .commitAgain, .committed => some { reader.commit with point := .wait }
  | .cleanUp, .finalized =>
    some { reader with
      err := if jpQueueIsGracefulErr reader.err then .ok else reader.err, point := .returned }
  | _, _ => none

/-! ### What one call can do -/

/-- After the poller the reader leaves, waits again or goes to the inner loop. -/
theorem after_wait_cases (reader : Reader) (answer : Errno) :
    (answer = .ereadFailed ∧
        reader.afterWait answer = { reader with err := answer, point := .cleanUp }) ∨
      (answer = .etryagain ∧
        reader.afterWait answer = { reader with err := answer, point := .wait }) ∨
      (answer ≠ .ereadFailed ∧ answer ≠ .etryagain ∧
        reader.afterWait answer = Reader.loopTop { reader with err := answer }) := by
  by_cases failing : answer = .ereadFailed
  · exact Or.inl ⟨failing, by simp [Reader.afterWait, failing]⟩
  · by_cases again : answer = .etryagain
    · exact Or.inr (Or.inl ⟨again, by simp [Reader.afterWait, again]⟩)
    · exact Or.inr (Or.inr ⟨failing, again, by simp [Reader.afterWait, failing, again]⟩)

/-- The calls of the reader, by what follows from the answer. -/
inductive Reads (chunkSize : Nat) (reader : Reader) : ReaderEvent → Reader → Prop where
  | created (answer : Errno) (standing : reader.point = .create) :
      Reads chunkSize reader (.created answer) { reader with
        err := answer, point := if answer = .ok then .register else .cleanUp }
  | registered (answer : Errno) (standing : reader.point = .register) :
      Reads chunkSize reader (.registered answer) { reader with
        err := answer, point := if answer = .ok then .wait else .cleanUp }
  | waited (answer : Errno) (standing : reader.point = .wait) :
      Reads chunkSize reader (.waited answer) (reader.afterWait answer)
  | pushed (answer : Errno) (standing : reader.point = .reserve) :
      Reads chunkSize reader (.pushed answer) (reader.afterPush answer)
  | discarded (bytes : List Byte) (standing : reader.point = .read)
      (dropping : reader.queueErr = .emsgShouldDrop) (positive : 0 < bytes.length)
      (fits : bytes.length ≤ chunkSize) :
      Reads chunkSize reader (.read (.data bytes)) (Reader.loopTop { reader with
        bytesRead := reader.bytesRead ++ bytes
        log := reader.log ++ [.discarded bytes] })
  | filled (bytes content : List Byte) (standing : reader.point = .read)
      (keeping : reader.queueErr ≠ .emsgShouldDrop) (block : reader.block = some content)
      (positive : 0 < bytes.length) (full : content.length + bytes.length = chunkSize) :
      Reads chunkSize reader (.read (.data bytes)) { reader with
        block := some (content ++ bytes)
        bytesRead := reader.bytesRead ++ bytes
        point := .commitFull }
  | stored (bytes content : List Byte) (standing : reader.point = .read)
      (keeping : reader.queueErr ≠ .emsgShouldDrop) (block : reader.block = some content)
      (positive : 0 < bytes.length) (room : content.length + bytes.length < chunkSize) :
      Reads chunkSize reader (.read (.data bytes)) { reader with
        block := some (content ++ bytes)
        bytesRead := reader.bytesRead ++ bytes
        point := .read }
  | ended (standing : reader.point = .read) :
      Reads chunkSize reader (.read .eof) { reader with
        point := if reader.queueErr = .ok ∧ reader.held.length > 0 then .commitEnd else .cleanUp }
  | interrupted (standing : reader.point = .read) :
      Reads chunkSize reader (.read .eintr) reader.loopTop
  | drained (standing : reader.point = .read) :
      Reads chunkSize reader (.read .eagain) { reader with
        point := if reader.queueErr = .ok ∧ reader.held.length > 0 then .commitAgain else .wait }
  | failed (standing : reader.point = .read) :
      Reads chunkSize reader (.read .failed) { reader with err := .ereadFailed, point := .cleanUp }
  | committedFull (standing : reader.point = .commitFull) :
      Reads chunkSize reader .committed reader.commit.loopTop
  | committedEnd (standing : reader.point = .commitEnd) :
      Reads chunkSize reader .committed { reader.commit with point := .cleanUp }
  | committedAgain (standing : reader.point = .commitAgain) :
      Reads chunkSize reader .committed { reader.commit with point := .wait }
  | finalized (standing : reader.point = .cleanUp) :
      Reads chunkSize reader .finalized { reader with
        err := if jpQueueIsGracefulErr reader.err then .ok else reader.err, point := .returned }

/-- A read that stored nothing ends, interrupts, drains or fails. -/
theorem no_data_reads {chunkSize : Nat} {reader next : Reader} {result : ReadResult}
    (standing : reader.point = .read) (taken : reader.afterNoData result = some next) :
    Reads chunkSize reader (.read result) next := by
  cases result with
  | data bytes => simp [Reader.afterNoData] at taken
  | eof =>
    obtain rfl := Option.some.inj taken
    exact .ended standing
  | eintr =>
    obtain rfl := Option.some.inj taken
    exact .interrupted standing
  | eagain =>
    obtain rfl := Option.some.inj taken
    exact .drained standing
  | failed =>
    obtain rfl := Option.some.inj taken
    exact .failed standing

/-- A read with data is discarded or stored. -/
theorem after_read_reads {chunkSize : Nat} {reader next : Reader} {result : ReadResult}
    (standing : reader.point = .read) (taken : reader.afterRead chunkSize result = some next) :
    Reads chunkSize reader (.read result) next := by
  unfold Reader.afterRead at taken
  by_cases dropping : reader.queueErr = .emsgShouldDrop
  · rw [if_pos dropping] at taken
    cases result with
    | data bytes =>
      by_cases fits : 0 < bytes.length ∧ bytes.length ≤ chunkSize
      · simp only [fits, and_self, ↓reduceIte] at taken
        obtain rfl := Option.some.inj taken
        exact .discarded bytes standing dropping fits.1 fits.2
      · simp [fits] at taken
    | _ => exact no_data_reads standing taken
  · rw [if_neg dropping] at taken
    cases block : reader.block with
    | none => simp [block] at taken
    | some content =>
      rw [block] at taken
      cases result with
      | data bytes =>
        by_cases fits : 0 < bytes.length ∧ bytes.length ≤ chunkSize - content.length
        · simp only [fits, and_self, ↓reduceIte, List.length_append] at taken
          by_cases full : content.length + bytes.length = chunkSize
          · rw [if_pos full] at taken
            obtain rfl := Option.some.inj taken
            exact .filled bytes content standing dropping block fits.1 full
          · rw [if_neg full] at taken
            obtain rfl := Option.some.inj taken
            exact .stored bytes content standing dropping block fits.1 (by omega)
        · simp [fits] at taken
      | _ => exact no_data_reads standing taken

/-- Every step is one of the calls. -/
theorem step_reads {chunkSize : Nat} {reader next : Reader} {event : ReaderEvent}
    (taken : reader.step chunkSize event = some next) : Reads chunkSize reader event next := by
  unfold Reader.step at taken
  split at taken
  · obtain rfl := Option.some.inj taken
    exact .created _ ‹_›
  · obtain rfl := Option.some.inj taken
    exact .registered _ ‹_›
  · obtain rfl := Option.some.inj taken
    exact .waited _ ‹_›
  · obtain rfl := Option.some.inj taken
    exact .pushed _ ‹_›
  · exact after_read_reads ‹_› taken
  · obtain rfl := Option.some.inj taken
    exact .committedFull ‹_›
  · obtain rfl := Option.some.inj taken
    exact .committedEnd ‹_›
  · obtain rfl := Option.some.inj taken
    exact .committedAgain ‹_›
  · obtain rfl := Option.some.inj taken
    exact .finalized ‹_›
  · simp at taken

end JPipe
