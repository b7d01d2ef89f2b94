import JPipe.Reader
import JPipe.Schedules
import Mathlib.Data.List.Basic

/-!
# What becomes of the bytes read

At every moment of `jp_reader_consume` the bytes read so far are those committed
and those discarded, in order, and after them the bytes of the block. Under the
waiting policy nothing is discarded, so whether all bytes are committed when the
reader returns is whether it returns without a partly filled block. One exit
leaves such a block behind: an error of `read`.
-/

namespace JPipe

/-- What holds of the block at each point. -/
def Reader.StandsAt (chunkSize : Nat) (reader : Reader) : ReaderPoint → Prop
  | .create | .register | .reserve => reader.block = none
  | .wait => reader.held = []
  | .read =>
    (reader.queueErr = .ok ∧ ∃ content, reader.block = some content ∧ content.length < chunkSize) ∨
      (reader.queueErr ≠ .ok ∧ reader.block = none)
  | .commitFull => reader.queueErr = .ok ∧ reader.held.length = chunkSize
  | .commitEnd | .commitAgain => reader.queueErr = .ok ∧ 0 < reader.held.length
  | .cleanUp | .returned => True

/-- The bytes read are accounted for. -/
structure Accounted (chunkSize : Nat) (reader : Reader) : Prop where
  bytes : reader.bytesRead = reader.log.flatMap Fate.bytes ++ reader.held
  reserved : ∀ content, reader.block = some content → reader.queueErr = .ok
  size : reader.held.length ≤ chunkSize
  sizes : ∀ block ∈ reader.committed, 0 < block.length ∧ block.length ≤ chunkSize
  stands : reader.StandsAt chunkSize reader.point

/-- Nothing has been read at the start. -/
theorem start_accounted (chunkSize : Nat) : Accounted chunkSize Reader.start :=
  ⟨rfl, by simp [Reader.start], Nat.zero_le _, by simp [Reader.start, Reader.committed], rfl⟩

/-- A committed block is a run of the bytes of the log. -/
theorem committed_in_log {reader : Reader} {block : List Byte}
    (member : block ∈ reader.committed) : block <:+: reader.log.flatMap Fate.bytes := by
  obtain ⟨fate, present, named⟩ := List.mem_filterMap.mp member
  cases fate with
  | discarded bytes => simp at named
  | committed bytes =>
    obtain rfl := Option.some.inj named
    rw [List.flatMap_def]
    exact List.infix_of_mem_flatten (List.mem_map_of_mem present)

/-- A reader without a block has nothing to hold. -/
theorem held_of_none {reader : Reader} (none : reader.block = none) : reader.held = [] := by
  rw [Reader.held, none, Option.getD_none]

/-- Moving on without a read keeps the account, if the block is one the reader may
have there. -/
theorem moved_accounted {chunkSize : Nat} {reader next : Reader}
    (accounted : Accounted chunkSize reader)
    (same : next.block = reader.block ∧ next.queueErr = reader.queueErr ∧
      next.bytesRead = reader.bytesRead ∧ next.log = reader.log)
    (stands : next.StandsAt chunkSize next.point) : Accounted chunkSize next := by
  obtain ⟨block, queueErr, bytesRead, log⟩ := same
  have held : next.held = reader.held := by rw [Reader.held, block, Reader.held]
  have committed : next.committed = reader.committed := by
    rw [Reader.committed, log, Reader.committed]
  constructor
  · rw [bytesRead, log, held]
    exact accounted.bytes
  · rw [block, queueErr]
    exact accounted.reserved
  · rw [held]
    exact accounted.size
  · rw [committed]
    exact accounted.sizes
  · exact stands

/-- At the top of the inner loop the reader may go on with any block not full. -/
theorem loop_top_stands {chunkSize : Nat} {reader : Reader}
    (reserved : ∀ content, reader.block = some content → reader.queueErr = .ok)
    (room : reader.held.length < chunkSize) :
    reader.loopTop.StandsAt chunkSize reader.loopTop.point := by
  cases block : reader.block with
  | none =>
    have top : reader.loopTop.point = .reserve := by simp [Reader.loopTop, block]
    rw [top]
    exact block
  | some content =>
    have top : reader.loopTop.point = .read := by simp [Reader.loopTop, block]
    rw [top]
    refine Or.inl ⟨reserved content block, content, block, ?_⟩
    simpa [Reader.held, block] using room

/-- A commit moves the block to the log. -/
theorem commit_accounted {chunkSize : Nat} {reader next : Reader}
    (accounted : Accounted chunkSize reader) (some : 0 < reader.held.length)
    (same : next.block = none ∧ next.bytesRead = reader.bytesRead ∧
      next.log = reader.log ++ [.committed reader.held])
    (stands : next.StandsAt chunkSize next.point) : Accounted chunkSize next := by
  obtain ⟨block, bytesRead, log⟩ := same
  have none : next.held = [] := held_of_none block
  constructor
  · rw [bytesRead, log, none, accounted.bytes]
    simp [Fate.bytes]
  · simp [block]
  · rw [none]
    exact Nat.zero_le _
  · intro content member
    rw [Reader.committed, log, List.filterMap_append, List.mem_append] at member
    cases member with
    | inl before => exact accounted.sizes content before
    | inr last =>
      obtain rfl : content = reader.held := by simpa using last
      exact ⟨some, accounted.size⟩
  · exact stands

/-- What is known where the reader stands. -/
theorem stands_at {chunkSize : Nat} {reader : Reader} {point : ReaderPoint}
    (accounted : Accounted chunkSize reader) (standing : reader.point = point) :
    reader.StandsAt chunkSize point := standing ▸ accounted.stands

/-- Where the reader reads, the block is not full. -/
theorem reading_room {chunkSize : Nat} (positive : 0 < chunkSize) {reader : Reader}
    (accounted : Accounted chunkSize reader) (standing : reader.point = .read) :
    reader.held.length < chunkSize := by
  cases stands_at accounted standing with
  | inl keeping =>
    obtain ⟨_, content, block, room⟩ := keeping
    rw [Reader.held, block]
    exact room
  | inr without =>
    rw [held_of_none without.2]
    exact positive

/-- After the poller the reader leaves, waits again or goes to the inner loop. -/
theorem wait_accounted {chunkSize : Nat} (positive : 0 < chunkSize) {reader : Reader}
    (accounted : Accounted chunkSize reader) (standing : reader.point = .wait) (answer : Errno) :
    Accounted chunkSize (reader.afterWait answer) := by
  have none : reader.held = [] := stands_at accounted standing
  rcases after_wait_cases reader answer with ⟨_, moved⟩ | ⟨_, moved⟩ | ⟨_, _, moved⟩ <;>
    rw [moved] <;> refine moved_accounted accounted ⟨rfl, rfl, rfl, rfl⟩ ?_
  · trivial
  · exact none
  · apply loop_top_stands accounted.reserved
    rw [none]
    exact positive

/-- After the queue the reader leaves, or reads with an empty block or none. -/
theorem push_accounted {chunkSize : Nat} (positive : 0 < chunkSize) {reader : Reader}
    (accounted : Accounted chunkSize reader) (standing : reader.point = .reserve) (answer : Errno) :
    Accounted chunkSize (reader.afterPush answer) := by
  have none : reader.block = none := stands_at accounted standing
  have empty : (reader.afterPush answer).held = [] := by
    by_cases reserved : answer = .ok <;> simp [Reader.afterPush, Reader.held, reserved, none]
  constructor
  · rw [empty, ← held_of_none none]
    exact accounted.bytes
  · intro content block
    by_cases reserved : answer = .ok
    · exact reserved
    · simp [Reader.afterPush, reserved, none] at block
  · rw [empty]
    exact Nat.zero_le _
  · exact accounted.sizes
  · by_cases shutting : answer = .eshuttingDown
    · simp [Reader.StandsAt, Reader.afterPush, shutting]
    · by_cases reserved : answer = .ok
      · simp [Reader.StandsAt, Reader.afterPush, reserved, positive]
      · simp [Reader.StandsAt, Reader.afterPush, reserved, shutting, none]

/-- Bytes stored in the block join it and the bytes read. -/
theorem stored_accounted {chunkSize : Nat} {reader next : Reader} {bytes content : List Byte}
    (accounted : Accounted chunkSize reader) (block : reader.block = some content)
    (fits : content.length + bytes.length ≤ chunkSize)
    (same : next.block = some (content ++ bytes) ∧ next.queueErr = reader.queueErr ∧
      next.bytesRead = reader.bytesRead ++ bytes ∧ next.log = reader.log)
    (stands : next.StandsAt chunkSize next.point) : Accounted chunkSize next := by
  obtain ⟨grown, queueErr, bytesRead, log⟩ := same
  have before : reader.held = content := by rw [Reader.held, block, Option.getD_some]
  have after : next.held = content ++ bytes := by rw [Reader.held, grown, Option.getD_some]
  constructor
  · rw [bytesRead, log, after, accounted.bytes, before, List.append_assoc]
  · intro _ _
    exact queueErr.trans (accounted.reserved content block)
  · rw [after, List.length_append]
    exact fits
  · rw [Reader.committed, log]
    exact accounted.sizes
  · exact stands

/-- Bytes discarded join the log and the bytes read; there is no block to hold. -/
theorem discarded_accounted {chunkSize : Nat} (positive : 0 < chunkSize) {reader : Reader}
    (accounted : Accounted chunkSize reader) (standing : reader.point = .read)
    (dropping : reader.queueErr = .emsgShouldDrop) (bytes : List Byte) :
    Accounted chunkSize (Reader.loopTop { reader with
      bytesRead := reader.bytesRead ++ bytes
      log := reader.log ++ [.discarded bytes] }) := by
  have none : reader.block = none := by
    cases stands_at accounted standing with
    | inl keeping => simp [dropping] at keeping
    | inr without => exact without.2
  have empty : reader.held = [] := held_of_none none
  constructor
  · change reader.bytesRead ++ bytes =
      (reader.log ++ [Fate.discarded bytes]).flatMap Fate.bytes ++ reader.held
    rw [accounted.bytes, empty]
    simp [Fate.bytes]
  · exact accounted.reserved
  · exact accounted.size
  · intro block member
    apply accounted.sizes block
    simpa [Reader.committed, Reader.loopTop] using member
  · apply loop_top_stands accounted.reserved
    rw [empty]
    exact positive

/-- Every call keeps the account. -/
theorem step_accounted {chunkSize : Nat} (positive : 0 < chunkSize) {reader next : Reader}
    {event : ReaderEvent} (accounted : Accounted chunkSize reader)
    (taken : reader.step chunkSize event = some next) : Accounted chunkSize next := by
  cases step_reads taken with
  | created answer standing =>
    have none : reader.block = none := stands_at accounted standing
    refine moved_accounted accounted ⟨rfl, rfl, rfl, rfl⟩ ?_
    by_cases succeeded : answer = .ok <;> simp [Reader.StandsAt, succeeded, none]
  | registered answer standing =>
    have none : reader.held = [] := held_of_none (stands_at accounted standing)
    refine moved_accounted accounted ⟨rfl, rfl, rfl, rfl⟩ ?_
    by_cases succeeded : answer = .ok
    · simp only [succeeded, ↓reduceIte]
      exact none
    · simp [Reader.StandsAt, succeeded]
  | waited answer standing => exact wait_accounted positive accounted standing answer
  | pushed answer standing => exact push_accounted positive accounted standing answer
  | discarded bytes standing dropping _ _ =>
    exact discarded_accounted positive accounted standing dropping bytes
  | filled bytes content standing keeping block _ full =>
    refine stored_accounted accounted block (Nat.le_of_eq full) ⟨rfl, rfl, rfl, rfl⟩ ?_
    exact ⟨accounted.reserved content block, by simpa [Reader.held] using full⟩
  | stored bytes content standing keeping block _ room =>
    refine stored_accounted accounted block (Nat.le_of_lt room) ⟨rfl, rfl, rfl, rfl⟩ ?_
    exact Or.inl ⟨accounted.reserved content block, content ++ bytes, rfl, by simpa using room⟩
  | ended standing =>
    refine moved_accounted accounted ⟨rfl, rfl, rfl, rfl⟩ ?_
    by_cases partly : reader.queueErr = .ok ∧ reader.held.length > 0
    · simp only [if_pos partly]
      exact partly
    · simp [Reader.StandsAt, partly]
  | interrupted standing =>
    refine moved_accounted accounted ⟨rfl, rfl, rfl, rfl⟩ ?_
    exact loop_top_stands accounted.reserved (reading_room positive accounted standing)
  | drained standing =>
    refine moved_accounted accounted ⟨rfl, rfl, rfl, rfl⟩ ?_
    by_cases partly : reader.queueErr = .ok ∧ reader.held.length > 0
    · simp only [if_pos partly]
      exact partly
    · simp only [if_neg partly]
      cases stands_at accounted standing with
      | inl keeping =>
        have none : reader.held = [] := by simpa [keeping.1] using partly
        exact none
      | inr without => exact held_of_none without.2
  | failed standing => exact moved_accounted accounted ⟨rfl, rfl, rfl, rfl⟩ trivial
  | committedFull standing =>
    obtain ⟨queueErr, full⟩ : reader.queueErr = .ok ∧ reader.held.length = chunkSize :=
      stands_at accounted standing
    refine commit_accounted accounted (by omega) ⟨rfl, rfl, rfl⟩ ?_
    exact loop_top_stands (by simp [Reader.commit]) positive
  | committedEnd standing =>
    obtain ⟨queueErr, some⟩ : reader.queueErr = .ok ∧ 0 < reader.held.length :=
      stands_at accounted standing
    exact commit_accounted accounted some ⟨rfl, rfl, rfl⟩ trivial
  | committedAgain standing =>
    obtain ⟨queueErr, some⟩ : reader.queueErr = .ok ∧ 0 < reader.held.length :=
      stands_at accounted standing
    exact commit_accounted accounted some ⟨rfl, rfl, rfl⟩ rfl
  | finalized standing => exact moved_accounted accounted ⟨rfl, rfl, rfl, rfl⟩ trivial

/-! ### The bytes of a run under the waiting policy -/

/-- The bytes that `read` stored in a run. -/
def readBytes (events : List ReaderEvent) : List Byte :=
  events.flatMap fun
    | .read (.data bytes) => bytes
    | _ => []

/-- Count the bytes stored, anew after each `EAGAIN`. -/
def countPart (count : Nat) : ReaderEvent → Nat
  | .read (.data bytes) => count + bytes.length
  | .read .eagain => 0
  | _ => count

/-- The bytes stored since the last `EAGAIN`, or since the start. -/
def partBytes (events : List ReaderEvent) : Nat := events.foldl countPart 0

/-- An answer the queue can give under the waiting policy. -/
def WaitAnswer : ReaderEvent → Prop
  | .pushed answer => answer = .ok ∨ answer = .eshuttingDown
  | _ => True

instance : DecidablePred WaitAnswer
  | .pushed answer => inferInstanceAs (Decidable (answer = .ok ∨ answer = .eshuttingDown))
  | .created _ => inferInstanceAs (Decidable True)
  | .registered _ => inferInstanceAs (Decidable True)
  | .waited _ => inferInstanceAs (Decidable True)
  | .read _ => inferInstanceAs (Decidable True)
  | .committed => inferInstanceAs (Decidable True)
  | .finalized => inferInstanceAs (Decidable True)

/-- The bytes held are those read since the last `EAGAIN`, up to whole blocks. -/
def Reader.HoldsPart (chunkSize : Nat) (past : List ReaderEvent) (reader : Reader) : Prop :=
  reader.held.length % chunkSize = partBytes past % chunkSize

/-- How the block stands to the bytes read at each point, after the calls `past`. -/
def Reader.FillsAt (chunkSize : Nat) (past : List ReaderEvent) (reader : Reader) :
    ReaderPoint → Prop
  | .create | .register | .wait | .reserve | .commitFull | .commitAgain =>
    chunkSize ∣ partBytes past ∧ .read .failed ∉ past
  | .read => reader.HoldsPart chunkSize past ∧ .read .failed ∉ past
  | .commitEnd => .read .failed ∉ past
  | .cleanUp | .returned =>
    reader.held = [] ∧ .read .failed ∉ past ∨
      reader.HoldsPart chunkSize past ∧ reader.held.length < chunkSize ∧ .read .failed ∈ past

/-- Under the waiting policy nothing is discarded, and the block is as full as the
bytes read since the last `EAGAIN` make it. -/
structure Filling (chunkSize : Nat) (past : List ReaderEvent) (reader : Reader) : Prop where
  accounted : Accounted chunkSize reader
  bytes : reader.bytesRead = readBytes past
  kept : reader.log = reader.committed.map Fate.committed
  answers : reader.queueErr ≠ .emsgShouldDrop
  fills : reader.FillsAt chunkSize past reader.point

@[simp] theorem part_bytes_snoc (past : List ReaderEvent) (event : ReaderEvent) :
    partBytes (past ++ [event]) = countPart (partBytes past) event := by
  simp [partBytes]

@[simp] theorem read_bytes_snoc (past : List ReaderEvent) (event : ReaderEvent) :
    readBytes (past ++ [event]) = readBytes past ++ readBytes [event] := by
  simp [readBytes]

/-- Nothing has been read at the start. -/
theorem start_filling (chunkSize : Nat) : Filling chunkSize [] Reader.start :=
  ⟨start_accounted chunkSize, rfl, rfl, by decide, Nat.dvd_zero chunkSize, by simp⟩

/-- What is known of the block where the reader stands. -/
theorem fills_at {chunkSize : Nat} {past : List ReaderEvent} {reader : Reader} {point : ReaderPoint}
    (filling : Filling chunkSize past reader) (standing : reader.point = point) :
    reader.FillsAt chunkSize past point := standing ▸ filling.fills

/-- A reader that reads and has no partly filled block holds nothing. -/
theorem unfilled_held {chunkSize : Nat} {reader : Reader} (accounted : Accounted chunkSize reader)
    (standing : reader.point = .read)
    (unfilled : ¬ (reader.queueErr = .ok ∧ reader.held.length > 0)) : reader.held = [] := by
  cases stands_at accounted standing with
  | inl keeping => simpa [keeping.1] using unfilled
  | inr without => exact held_of_none without.2

/-- A call that changes neither the log nor the last answer of the queue keeps the
account. -/
theorem moved_filling {chunkSize : Nat} {past : List ReaderEvent} {reader next : Reader}
    {event : ReaderEvent} (filling : Filling chunkSize past reader)
    (accounted : Accounted chunkSize next)
    (same : next.log = reader.log ∧ next.queueErr = reader.queueErr ∧
      next.bytesRead = reader.bytesRead ++ readBytes [event])
    (fills : next.FillsAt chunkSize (past ++ [event]) next.point) :
    Filling chunkSize (past ++ [event]) next := by
  obtain ⟨log, queueErr, bytesRead⟩ := same
  constructor
  · exact accounted
  · rw [bytesRead, filling.bytes, read_bytes_snoc]
  · rw [Reader.committed, log]
    exact filling.kept
  · rw [queueErr]
    exact filling.answers
  · exact fills

/-- A commit adds a committed block to the log. -/
theorem commit_filling {chunkSize : Nat} {past : List ReaderEvent} {reader next : Reader}
    (filling : Filling chunkSize past reader) (accounted : Accounted chunkSize next)
    (same : next.log = reader.log ++ [.committed reader.held] ∧ next.queueErr = reader.queueErr ∧
      next.bytesRead = reader.bytesRead)
    (fills : next.FillsAt chunkSize (past ++ [.committed]) next.point) :
    Filling chunkSize (past ++ [.committed]) next := by
  obtain ⟨log, queueErr, bytesRead⟩ := same
  constructor
  · exact accounted
  · rw [bytesRead, filling.bytes, read_bytes_snoc]
    exact (List.append_nil _).symm
  · rw [Reader.committed, log, List.filterMap_append, List.map_append, filling.kept]
    simp [Reader.committed]
  · rw [queueErr]
    exact filling.answers
  · exact fills

/-- An empty block is in step with a multiple of the chunk size. -/
theorem empty_part {chunkSize : Nat} {past : List ReaderEvent} {reader : Reader}
    (none : reader.held = []) :
    reader.HoldsPart chunkSize past ↔ chunkSize ∣ partBytes past := by
  rw [Reader.HoldsPart, none, List.length_nil, Nat.zero_mod, eq_comm]
  exact (Nat.dvd_iff_mod_eq_zero ..).symm

/-- A call that counts nothing and leaves the block keeps them in step. -/
theorem part_kept {chunkSize : Nat} {past : List ReaderEvent} {reader next : Reader}
    {event : ReaderEvent} (part : reader.HoldsPart chunkSize past) (held : next.held = reader.held)
    (silent : ∀ count, countPart count event = count) :
    next.HoldsPart chunkSize (past ++ [event]) := by
  rw [Reader.HoldsPart, held, part_bytes_snoc, silent]
  exact part

/-- At the top of the inner loop the block stays in step with the bytes read. -/
theorem loop_top_fills {chunkSize : Nat} {past : List ReaderEvent} {reader : Reader}
    (part : reader.HoldsPart chunkSize past) (unfailed : .read .failed ∉ past) :
    reader.loopTop.FillsAt chunkSize past reader.loopTop.point := by
  cases block : reader.block with
  | none =>
    have top : reader.loopTop.point = .reserve := by simp [Reader.loopTop, block]
    rw [top]
    exact ⟨(empty_part (held_of_none block)).mp part, unfailed⟩
  | some content =>
    have top : reader.loopTop.point = .read := by simp [Reader.loopTop, block]
    rw [top]
    exact ⟨part, unfailed⟩

/-- After the poller nothing is held. -/
theorem wait_filling {chunkSize : Nat} {past : List ReaderEvent} {reader : Reader} {answer : Errno}
    (filling : Filling chunkSize past reader) (standing : reader.point = .wait)
    (accounted : Accounted chunkSize (reader.afterWait answer)) :
    Filling chunkSize (past ++ [.waited answer]) (reader.afterWait answer) := by
  obtain ⟨multiple, unfailed⟩ := fills_at filling standing
  have none : reader.held = [] := stands_at filling.accounted standing
  have unfailedNow : .read .failed ∉ past ++ [ReaderEvent.waited answer] := by simpa using unfailed
  have multipleNow : chunkSize ∣ partBytes (past ++ [.waited answer]) := by
    simpa [countPart] using multiple
  rcases after_wait_cases reader answer with ⟨_, moved⟩ | ⟨_, moved⟩ | ⟨_, _, moved⟩ <;>
    rw [moved] at accounted ⊢ <;>
    refine moved_filling filling accounted ⟨rfl, rfl, (List.append_nil _).symm⟩ ?_
  · exact Or.inl ⟨none, unfailedNow⟩
  · exact ⟨multipleNow, unfailedNow⟩
  · exact loop_top_fills ((empty_part none).mpr multipleNow) unfailedNow

/-- After the queue nothing is held. -/
theorem push_filling {chunkSize : Nat} {past : List ReaderEvent} {reader : Reader} {answer : Errno}
    (filling : Filling chunkSize past reader) (standing : reader.point = .reserve)
    (waits : WaitAnswer (.pushed answer))
    (accounted : Accounted chunkSize (reader.afterPush answer)) :
    Filling chunkSize (past ++ [.pushed answer]) (reader.afterPush answer) := by
  obtain ⟨multiple, unfailed⟩ := fills_at filling standing
  have none : reader.block = none := stands_at filling.accounted standing
  have unfailedNow : .read .failed ∉ past ++ [ReaderEvent.pushed answer] := by simpa using unfailed
  have multipleNow : chunkSize ∣ partBytes (past ++ [.pushed answer]) := by
    simpa [countPart] using multiple
  constructor
  · exact accounted
  · rw [read_bytes_snoc, ← filling.bytes]
    exact (List.append_nil _).symm
  · exact filling.kept
  · intro dropping
    cases waits with
    | inl reserved => exact absurd (dropping.symm.trans reserved) (by decide)
    | inr shutting => exact absurd (dropping.symm.trans shutting) (by decide)
  · cases waits with
    | inl reserved =>
      subst reserved
      exact ⟨(empty_part rfl).mpr multipleNow, unfailedNow⟩
    | inr shutting =>
      subst shutting
      exact Or.inl ⟨held_of_none none, unfailedNow⟩

/-- Every call keeps the account under the waiting policy. -/
theorem step_filling {chunkSize : Nat} (positive : 0 < chunkSize) {past : List ReaderEvent}
    {reader next : Reader} {event : ReaderEvent} (filling : Filling chunkSize past reader)
    (waits : WaitAnswer event) (taken : reader.step chunkSize event = some next) :
    Filling chunkSize (past ++ [event]) next := by
  have accounted := step_accounted positive filling.accounted taken
  have grown (bytes content : List Byte) (block : reader.block = some content)
      (part : reader.HoldsPart chunkSize past) :
      (content ++ bytes).length % chunkSize =
        partBytes (past ++ [.read (.data bytes)]) % chunkSize := by
    rw [part_bytes_snoc, List.length_append]
    apply Nat.ModEq.add_right
    rw [Reader.HoldsPart, Reader.held, block] at part
    exact part
  cases step_reads taken with
  | created answer standing | registered answer standing =>
    obtain ⟨multiple, unfailed⟩ := fills_at filling standing
    have none : reader.held = [] := held_of_none (stands_at filling.accounted standing)
    refine moved_filling filling accounted ⟨rfl, rfl, (List.append_nil _).symm⟩ ?_
    by_cases succeeded : answer = .ok
    · simpa [succeeded, Reader.FillsAt, countPart, unfailed] using multiple
    · simp only [if_neg succeeded]
      exact Or.inl ⟨none, by simpa using unfailed⟩
  | waited answer standing => exact wait_filling filling standing accounted
  | pushed answer standing => exact push_filling filling standing waits accounted
  | discarded bytes standing dropping _ _ => exact absurd dropping filling.answers
  | filled bytes content standing keeping block _ full =>
    obtain ⟨part, unfailed⟩ := fills_at filling standing
    refine moved_filling filling accounted ⟨rfl, rfl, by simp [readBytes]⟩ ?_
    have whole := grown bytes content block part
    rw [List.length_append, full, Nat.mod_self] at whole
    exact ⟨Nat.dvd_of_mod_eq_zero whole.symm, by simpa using unfailed⟩
  | stored bytes content standing keeping block _ room =>
    obtain ⟨part, unfailed⟩ := fills_at filling standing
    refine moved_filling filling accounted ⟨rfl, rfl, by simp [readBytes]⟩ ?_
    exact ⟨grown bytes content block part, by simpa using unfailed⟩
  | ended standing =>
    obtain ⟨part, unfailed⟩ := fills_at filling standing
    refine moved_filling filling accounted ⟨rfl, rfl, (List.append_nil _).symm⟩ ?_
    by_cases partly : reader.queueErr = .ok ∧ reader.held.length > 0
    · simpa [partly, Reader.FillsAt] using unfailed
    · have none : reader.held = [] := unfilled_held filling.accounted standing partly
      simp only [if_neg partly]
      exact Or.inl ⟨none, by simpa using unfailed⟩
  | interrupted standing =>
    obtain ⟨part, unfailed⟩ := fills_at filling standing
    refine moved_filling filling accounted ⟨rfl, rfl, (List.append_nil _).symm⟩ ?_
    exact loop_top_fills (part_kept part rfl fun _ => rfl) (by simpa using unfailed)
  | drained standing =>
    obtain ⟨part, unfailed⟩ := fills_at filling standing
    refine moved_filling filling accounted ⟨rfl, rfl, (List.append_nil _).symm⟩ ?_
    by_cases partly : reader.queueErr = .ok ∧ reader.held.length > 0
    · simpa [partly, Reader.FillsAt, countPart] using unfailed
    · simpa [partly, Reader.FillsAt, countPart] using unfailed
  | failed standing =>
    obtain ⟨part, unfailed⟩ := fills_at filling standing
    refine moved_filling filling accounted ⟨rfl, rfl, (List.append_nil _).symm⟩ ?_
    have room : reader.held.length < chunkSize := reading_room positive filling.accounted standing
    exact Or.inr ⟨part_kept part rfl fun _ => rfl, room, by simp⟩
  | committedFull standing =>
    obtain ⟨multiple, unfailed⟩ := fills_at filling standing
    refine commit_filling filling accounted ⟨rfl, rfl, rfl⟩ ?_
    apply loop_top_fills
    · apply (empty_part rfl).mpr
      simpa [countPart] using multiple
    · simpa using unfailed
  | committedEnd standing =>
    have unfailed : .read .failed ∉ past := fills_at filling standing
    refine commit_filling filling accounted ⟨rfl, rfl, rfl⟩ ?_
    exact Or.inl ⟨rfl, by simpa using unfailed⟩
  | committedAgain standing =>
    obtain ⟨multiple, unfailed⟩ := fills_at filling standing
    refine commit_filling filling accounted ⟨rfl, rfl, rfl⟩ ?_
    exact ⟨by simpa [countPart] using multiple, by simpa using unfailed⟩
  | finalized standing =>
    refine moved_filling filling accounted ⟨rfl, rfl, (List.append_nil _).symm⟩ ?_
    cases fills_at filling standing with
    | inl settled => exact Or.inl ⟨settled.1, by simpa using settled.2⟩
    | inr failed =>
      obtain ⟨part, room, event⟩ := failed
      exact Or.inr ⟨part_kept part rfl fun _ => rfl, room, by simpa using event⟩

/-- Under the waiting policy, a run that returns has committed all bytes read
exactly when no `read` failed, or the bytes read since the last `EAGAIN` make up
whole blocks. -/
theorem bytes_committed_iff {chunkSize : Nat} (positive : 0 < chunkSize)
    (events : List ReaderEvent) (waits : ∀ event ∈ events, WaitAnswer event) (final : Reader)
    (completed : Schedules.run (Reader.step chunkSize) Reader.start events = some final)
    (returned : final.point = .returned) :
    final.committed.flatten = readBytes events ↔
      (.read .failed ∈ events → chunkSize ∣ partBytes events) := by
  have preserved (past : List ReaderEvent) (reader : Reader) (event : ReaderEvent) (next : Reader)
      (filling : (∀ event ∈ past, WaitAnswer event) → Filling chunkSize past reader)
      (taken : reader.step chunkSize event = some next)
      (allWait : ∀ other ∈ past ++ [event], WaitAnswer other) :
      Filling chunkSize (past ++ [event]) next := by
    have before := filling fun other member => allWait other (List.mem_append_left _ member)
    exact step_filling positive before (allWait event (by simp)) taken
  have filling : Filling chunkSize events final :=
    Schedules.run_history_invariant preserved (fun _ => start_filling chunkSize) completed waits
  have bytes : readBytes events = final.committed.flatten ++ final.held := by
    rw [← filling.bytes, filling.accounted.bytes, filling.kept, List.flatMap_map]
    exact congrArg (· ++ final.held) List.flatMap_id'
  rw [bytes, List.self_eq_append_right]
  cases fills_at filling returned with
  | inl settled => simp [settled.1, settled.2]
  | inr failed =>
    obtain ⟨part, room, event⟩ := failed
    constructor
    · intro none _
      exact (empty_part none).mp part
    · intro multiple
      rw [Reader.HoldsPart, Nat.mod_eq_of_lt room, Nat.mod_eq_zero_of_dvd (multiple event)] at part
      exact List.length_eq_zero_iff.mp part

/-- A stream of one byte, committed at the end of file. -/
theorem ended_run_committed :
    ∃ final, Schedules.run (Reader.step 1024) Reader.start
        [.created .ok, .registered .ok, .waited .ok, .pushed .ok, .read (.data [0x61]), .read .eof,
          .committed, .finalized] = some final ∧ final.committed.flatten = [0x61] := by
  have ran : (Schedules.run (Reader.step 1024) Reader.start
      [.created .ok, .registered .ok, .waited .ok, .pushed .ok, .read (.data [0x61]), .read .eof,
        .committed, .finalized]).map Reader.point = some .returned := by decide
  obtain ⟨final, completed, returned⟩ := Option.map_eq_some_iff.mp ran
  have committed := bytes_committed_iff (by decide) _ (by decide) final completed returned
  exact ⟨final, completed, committed.mpr fun failed => absurd failed (by decide)⟩

/-- One byte read, then an error: the byte is in no committed block. -/
theorem failed_run_discards :
    (∀ event ∈ [ReaderEvent.created .ok, .registered .ok, .waited .ok, .pushed .ok,
        .read (.data [0x61]), .read .failed, .finalized], WaitAnswer event) ∧
      ∃ final, Schedules.run (Reader.step 1024) Reader.start
          [.created .ok, .registered .ok, .waited .ok, .pushed .ok, .read (.data [0x61]),
            .read .failed, .finalized] = some final ∧
        final.point = .returned ∧ final.committed.flatten = [] ∧
        readBytes [.created .ok, .registered .ok, .waited .ok, .pushed .ok, .read (.data [0x61]),
          .read .failed, .finalized] = [0x61] :=
  ⟨by decide, _, rfl, rfl, rfl, rfl⟩

end JPipe
