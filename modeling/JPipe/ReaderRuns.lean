import JPipe.Pairing
import JPipe.Queue
import JPipe.ReaderSafety

/-!
# Any run of the reader

Under either policy `jp_queue_push_uncommitted` answers 0, `JP_ESHUTTING_DOWN` or
`JP_EMSG_SHOULD_DROP`, and the reader meets any sequence of these with any answers
of the poller and of `read`. The bytes read are the committed blocks and the reads
discarded, in order, and after them the bytes of the block. A block is there
whenever the reader uses it, and it has room whenever the reader fills it. The
reader among the threads is such a run, whatever the others do.
-/

namespace JPipe

/-- An answer `jp_queue_push_uncommitted` can give. -/
def PushAnswer : ReaderEvent → Prop
  | .pushed answer => answer = .ok ∨ answer = .eshuttingDown ∨ answer = .emsgShouldDrop
  | _ => True

instance : DecidablePred PushAnswer := fun event =>
  match event with
  | .pushed answer =>
    inferInstanceAs (Decidable (answer = .ok ∨ answer = .eshuttingDown ∨ answer = .emsgShouldDrop))
  | .created _ | .registered _ | .waited _ | .read _ | .committed | .finalized =>
    inferInstanceAs (Decidable True)

/-- The queue gives no other answer without a block. -/
theorem queue_push_answer {β : Type} {queue next : Queue β} {label : QueueLabel β} {answer : Errno}
    (inside : label.inPush = true) (taken : queue.step label = some next)
    (refused : next.producer = .outside answer) : PushAnswer (.pushed answer) := by
  rcases push_refused inside taken refused with ⟨shutting, _⟩ | ⟨dropping, _⟩
  · exact Or.inr (Or.inl shutting)
  · exact Or.inr (Or.inr dropping)

/-- Follow the last answer of `jp_queue_push_uncommitted` and the reads made while
it was `JP_EMSG_SHOULD_DROP`. -/
def followDrops (seen : Errno × List (List Byte)) : ReaderEvent → Errno × List (List Byte)
  | .pushed answer => (answer, seen.2)
  | .read (.data bytes) =>
    if seen.1 = .emsgShouldDrop then (seen.1, seen.2 ++ [bytes]) else seen
  | _ => seen

/-- The last answer of `jp_queue_push_uncommitted` in a run. -/
def lastAnswer (events : List ReaderEvent) : Errno := (events.foldl followDrops (.ok, [])).1

/-- The reads of a run made while the queue asked to drop. -/
def droppedReads (events : List ReaderEvent) : List (List Byte) :=
  (events.foldl followDrops (.ok, [])).2

theorem last_answer_snoc (past : List ReaderEvent) (event : ReaderEvent) :
    lastAnswer (past ++ [event]) = (followDrops (lastAnswer past, droppedReads past) event).1 := by
  simp [lastAnswer, droppedReads]

theorem dropped_reads_snoc (past : List ReaderEvent) (event : ReaderEvent) :
    droppedReads (past ++ [event]) = (followDrops (lastAnswer past, droppedReads past) event).2 := by
  simp [lastAnswer, droppedReads]

/-- The reads discarded so far. -/
def Reader.discarded (reader : Reader) : List (List Byte) :=
  reader.log.filterMap fun
    | .committed _ => none
    | .discarded bytes => some bytes

/-- How many bytes the next `read` asks for: as many as the buffer for bytes to drop
holds, or as many as the block has room for. -/
def Reader.asks (chunkSize : Nat) (reader : Reader) : Nat :=
  if reader.queueErr = .emsgShouldDrop then chunkSize else chunkSize - reader.held.length

/-- What a run has made of the answers. -/
structure Followed (chunkSize : Nat) (past : List ReaderEvent) (reader : Reader) : Prop where
  accounted : Accounted chunkSize reader
  bytes : reader.bytesRead = readBytes past
  answer : reader.queueErr = lastAnswer past
  discarded : reader.discarded = droppedReads past
  answers : PushAnswer (.pushed reader.queueErr)
  shutting : reader.queueErr = .eshuttingDown → reader.point = .cleanUp ∨ reader.point = .returned

/-- Nothing has happened at the start. -/
theorem start_followed (chunkSize : Nat) : Followed chunkSize [] Reader.start :=
  ⟨start_accounted chunkSize, rfl, rfl, rfl, Or.inl rfl, by simp [Reader.start]⟩

/-- A call that reads nothing and is not answered by the queue is followed, if it
discards nothing and the queue was not shutting down. -/
theorem silent_followed {chunkSize : Nat} {past : List ReaderEvent} {reader next : Reader}
    {event : ReaderEvent} (followed : Followed chunkSize past reader)
    (accounted : Accounted chunkSize next)
    (silent : readBytes [event] = [] ∧ ∀ seen, followDrops seen event = seen)
    (same : next.bytesRead = reader.bytesRead ∧ next.queueErr = reader.queueErr ∧
      next.discarded = reader.discarded)
    (point : reader.queueErr = .eshuttingDown → next.point = .cleanUp ∨ next.point = .returned) :
    Followed chunkSize (past ++ [event]) next := by
  obtain ⟨bytesRead, queueErr, discarded⟩ := same
  constructor
  · exact accounted
  · rw [bytesRead, followed.bytes, read_bytes_snoc, silent.1, List.append_nil]
  · rw [queueErr, followed.answer, last_answer_snoc, silent.2]
  · rw [discarded, followed.discarded, dropped_reads_snoc, silent.2]
  · rw [queueErr]
    exact followed.answers
  · rw [queueErr]
    exact point

/-- Bytes stored in the block are no read discarded. -/
theorem stored_followed {chunkSize : Nat} {past : List ReaderEvent} {reader next : Reader}
    {bytes : List Byte} (followed : Followed chunkSize past reader)
    (accounted : Accounted chunkSize next) (standing : reader.point = .read)
    (keeping : reader.queueErr ≠ .emsgShouldDrop)
    (same : next.bytesRead = reader.bytesRead ++ bytes ∧ next.queueErr = reader.queueErr ∧
      next.log = reader.log) :
    Followed chunkSize (past ++ [.read (.data bytes)]) next := by
  obtain ⟨bytesRead, queueErr, log⟩ := same
  have kept : lastAnswer past ≠ .emsgShouldDrop := followed.answer ▸ keeping
  constructor
  · exact accounted
  · rw [bytesRead, followed.bytes, read_bytes_snoc]
    simp [readBytes]
  · rw [queueErr, followed.answer, last_answer_snoc]
    simp [followDrops, kept]
  · rw [Reader.discarded, log, ← Reader.discarded, followed.discarded, dropped_reads_snoc]
    simp [followDrops, kept]
  · rw [queueErr]
    exact followed.answers
  · intro shutting
    have gone := followed.shutting (queueErr.symm.trans shutting)
    simp [standing] at gone

/-- Every call is followed. -/
theorem step_followed {chunkSize : Nat} (positive : 0 < chunkSize) {past : List ReaderEvent}
    {reader next : Reader} {event : ReaderEvent} (followed : Followed chunkSize past reader)
    (answers : PushAnswer event) (taken : reader.step chunkSize event = some next) :
    Followed chunkSize (past ++ [event]) next := by
  have accounted := step_accounted positive followed.accounted taken
  have elsewhere {point : ReaderPoint} {claim : Prop} (standing : reader.point = point)
      (inLoop : point ≠ .cleanUp ∧ point ≠ .returned)
      (shutting : reader.queueErr = .eshuttingDown) : claim := by
    rcases followed.shutting shutting with gone | gone
    · exact absurd (standing.symm.trans gone) inLoop.1
    · exact absurd (standing.symm.trans gone) inLoop.2
  cases step_reads taken with
  | created answer standing | registered answer standing =>
    exact silent_followed followed accounted ⟨rfl, fun _ => rfl⟩ ⟨rfl, rfl, rfl⟩
      (elsewhere standing (by decide))
  | waited answer standing =>
    refine silent_followed followed accounted ⟨rfl, fun _ => rfl⟩ ?_ (elsewhere standing (by decide))
    rcases after_wait_cases reader answer with ⟨_, moved⟩ | ⟨_, moved⟩ | ⟨_, _, moved⟩ <;>
      rw [moved] <;> exact ⟨rfl, rfl, rfl⟩
  | pushed answer standing =>
    constructor
    · exact accounted
    · rw [read_bytes_snoc, ← followed.bytes]
      exact (List.append_nil _).symm
    · rw [last_answer_snoc]
      rfl
    · rw [dropped_reads_snoc]
      exact followed.discarded
    · exact answers
    · intro shutting
      have answered : answer = .eshuttingDown := shutting
      exact Or.inl (by simp [Reader.afterPush, answered])
  | discarded bytes standing dropping _ _ =>
    have asked : lastAnswer past = .emsgShouldDrop := followed.answer ▸ dropping
    constructor
    · exact accounted
    · change reader.bytesRead ++ bytes = _
      rw [followed.bytes, read_bytes_snoc]
      simp [readBytes]
    · change reader.queueErr = _
      rw [followed.answer, last_answer_snoc]
      simp [followDrops, asked]
    · have grown : Reader.discarded (Reader.loopTop { reader with
          bytesRead := reader.bytesRead ++ bytes, log := reader.log ++ [.discarded bytes] }) =
          reader.discarded ++ [bytes] := by
        simp [Reader.discarded, Reader.loopTop]
      rw [grown, followed.discarded, dropped_reads_snoc]
      simp [followDrops, asked]
    · exact followed.answers
    · exact elsewhere standing (by decide)
  | filled bytes content standing keeping _ _ _ | stored bytes content standing keeping _ _ _ =>
    exact stored_followed followed accounted standing keeping ⟨rfl, rfl, rfl⟩
  | ended standing | interrupted standing | drained standing | failed standing =>
    exact silent_followed followed accounted ⟨rfl, fun _ => rfl⟩ ⟨rfl, rfl, rfl⟩
      (elsewhere standing (by decide))
  | committedFull standing | committedEnd standing | committedAgain standing =>
    exact silent_followed followed accounted ⟨rfl, fun _ => rfl⟩
      ⟨rfl, rfl, by simp [Reader.discarded, Reader.commit, Reader.loopTop]⟩
      (elsewhere standing (by decide))
  | finalized standing =>
    exact silent_followed followed accounted ⟨rfl, fun _ => rfl⟩ ⟨rfl, rfl, rfl⟩
      fun _ => Or.inr rfl

/-- What holds of the reader after any run. -/
structure ReaderSafe (chunkSize : Nat) (events : List ReaderEvent) (reader : Reader) : Prop where
  bytes : readBytes events = reader.log.flatMap Fate.bytes ++ reader.held
  discarded : reader.discarded = droppedReads events
  blocks : ∀ block ∈ reader.committed,
    block <:+: readBytes events ∧ 1 ≤ block.length ∧ block.length ≤ chunkSize
  dereferenced : reader.point = .read → reader.queueErr ≠ .emsgShouldDrop →
    lastAnswer events = .ok ∧ reader.block ≠ none
  committing : reader.point = .commitFull ∨ reader.point = .commitEnd ∨
    reader.point = .commitAgain → lastAnswer events = .ok ∧ reader.block ≠ none
  asked : reader.point = .read → 1 ≤ reader.asks chunkSize
  room : reader.queueErr ≠ .emsgShouldDrop →
    reader.asks chunkSize ≤ chunkSize - reader.held.length
  answered : reader.point = .read → ∀ result,
    (∀ bytes, result = .data bytes → 0 < bytes.length ∧ bytes.length ≤ reader.asks chunkSize) →
    (reader.step chunkSize (.read result)).isSome = true

/-- Where the reader reads without dropping, the queue has handed out its block. -/
theorem reading_block {chunkSize : Nat} {past : List ReaderEvent} {reader : Reader}
    (followed : Followed chunkSize past reader) (standing : reader.point = .read) :
    reader.queueErr = .ok ∧
        (∃ content, reader.block = some content ∧ content.length < chunkSize) ∨
      reader.queueErr = .emsgShouldDrop ∧ reader.block = none := by
  refine (stands_at followed.accounted standing).imp id ?_
  rintro ⟨unreserved, none⟩
  rcases followed.answers with reserved | shutting | dropping
  · exact absurd reserved unreserved
  · rcases followed.shutting shutting with gone | gone <;> simp [standing] at gone
  · exact ⟨dropping, none⟩

/-- Every answer a `read` can give at this point is one the reader has a next state
for, in which no block was used that is not there. -/
theorem reading_answered {chunkSize : Nat} {past : List ReaderEvent} {reader : Reader}
    (followed : Followed chunkSize past reader) (standing : reader.point = .read)
    (result : ReadResult)
    (within : ∀ bytes, result = .data bytes →
      0 < bytes.length ∧ bytes.length ≤ reader.asks chunkSize) :
    (reader.step chunkSize (.read result)).isSome = true := by
  rcases reading_block followed standing with ⟨reserved, content, block, _⟩ | ⟨dropping, none⟩
  · have keeping : reader.queueErr ≠ .emsgShouldDrop := by simp [reserved]
    cases result with
    | data bytes =>
      obtain ⟨positive, fits⟩ := within bytes rfl
      rw [Reader.asks, if_neg keeping, Reader.held, block, Option.getD_some] at fits
      by_cases full : content.length + bytes.length = chunkSize <;>
        simp [Reader.step, standing, Reader.afterRead, keeping, block, positive, fits, full]
    | _ => simp [Reader.step, standing, Reader.afterRead, keeping, block, Reader.afterNoData]
  · cases result with
    | data bytes =>
      obtain ⟨positive, fits⟩ := within bytes rfl
      rw [Reader.asks, if_pos dropping] at fits
      simp [Reader.step, standing, Reader.afterRead, dropping, positive, fits]
    | _ => simp [Reader.step, standing, Reader.afterRead, dropping, Reader.afterNoData]

/-- A committed block is a run of the bytes read. -/
theorem committed_among {chunkSize : Nat} {past : List ReaderEvent} {reader : Reader}
    (followed : Followed chunkSize past reader) {block : List Byte}
    (member : block ∈ reader.committed) : block <:+: readBytes past := by
  rw [← followed.bytes, followed.accounted.bytes]
  exact (committed_in_log member).trans (List.prefix_append _ _).isInfix

/-- What was followed is safe. -/
theorem followed_safe {chunkSize : Nat} (positive : 0 < chunkSize) {past : List ReaderEvent}
    {reader : Reader} (followed : Followed chunkSize past reader) :
    ReaderSafe chunkSize past reader := by
  have filled (some : 0 < reader.held.length) : reader.block ≠ none := by
    intro none
    simp [held_of_none none] at some
  constructor
  · rw [← followed.bytes]
    exact followed.accounted.bytes
  · exact followed.discarded
  · intro block member
    exact ⟨committed_among followed member, followed.accounted.sizes block member⟩
  · intro standing keeping
    rcases reading_block followed standing with ⟨reserved, content, block, _⟩ | ⟨dropping, _⟩
    · exact ⟨followed.answer ▸ reserved, by simp [block]⟩
    · exact absurd dropping keeping
  · intro commits
    rw [← followed.answer]
    rcases commits with standing | standing | standing
    · obtain ⟨reserved, full⟩ := stands_at followed.accounted standing
      exact ⟨reserved, filled (full ▸ positive)⟩
    · obtain ⟨reserved, some⟩ := stands_at followed.accounted standing
      exact ⟨reserved, filled some⟩
    · obtain ⟨reserved, some⟩ := stands_at followed.accounted standing
      exact ⟨reserved, filled some⟩
  · intro standing
    have room := reading_room positive followed.accounted standing
    rw [Reader.asks]
    split_ifs <;> omega
  · intro keeping
    rw [Reader.asks, if_neg keeping]
  · exact fun standing result within => reading_answered followed standing result within

/-- Any run with such answers is followed to its end. -/
theorem run_followed {chunkSize : Nat} (positive : 0 < chunkSize) {events : List ReaderEvent}
    (answers : ∀ event ∈ events, PushAnswer event) {final : Reader}
    (completed : Schedules.run (Reader.step chunkSize) Reader.start events = some final) :
    Followed chunkSize events final := by
  have preserved (past : List ReaderEvent) (reader : Reader) (event : ReaderEvent) (next : Reader)
      (followed : (∀ event ∈ past, PushAnswer event) → Followed chunkSize past reader)
      (taken : reader.step chunkSize event = some next)
      (allAnswers : ∀ other ∈ past ++ [event], PushAnswer other) :
      Followed chunkSize (past ++ [event]) next := by
    have before := followed fun other member => allAnswers other (List.mem_append_left _ member)
    exact step_followed positive before (allAnswers event (by simp)) taken
  exact Schedules.run_history_invariant preserved (fun _ => start_followed chunkSize) completed
    answers

/-- Any run of `jp_reader_consume`, whatever the poller, `read` and the queue
answer, accounts for the bytes read and uses the block only when it is there. -/
theorem reader_safe {chunkSize : Nat} (positive : 0 < chunkSize) (events : List ReaderEvent)
    (answers : ∀ event ∈ events, PushAnswer event) (final : Reader)
    (completed : Schedules.run (Reader.step chunkSize) Reader.start events = some final) :
    ReaderSafe chunkSize events final :=
  followed_safe positive (run_followed positive answers completed)

/-- Two bytes discarded while the queue is full, and one committed after it. -/
theorem dropping_run_safe :
    ∃ final, Schedules.run (Reader.step 2) Reader.start
        [.created .ok, .registered .ok, .waited .ok, .pushed .emsgShouldDrop,
          .read (.data [0x61, 0x62]), .pushed .ok, .read (.data [0x63]), .read .eof, .committed] =
        some final ∧
      final.log = [.discarded [0x61, 0x62], .committed [0x63]] ∧
      ReaderSafe 2 [.created .ok, .registered .ok, .waited .ok, .pushed .emsgShouldDrop,
        .read (.data [0x61, 0x62]), .pushed .ok, .read (.data [0x63]), .read .eof, .committed]
        final :=
  ⟨_, rfl, rfl, reader_safe (by decide) _ (by decide) _ rfl⟩

/-! ### The reader among the threads -/

/-- The reader of the threads behaves as the reader, with the answers of the queue. -/
theorem pipeline_refines_reader {chunkSize : Nat} {state final : Pipeline}
    {schedule : List PipelineLabel}
    (completed : Schedules.run (Pipeline.step chunkSize) state schedule = some final) :
    ∃ events, (∀ event ∈ events, PushAnswer event) ∧
      Schedules.run (Reader.step chunkSize) state.reader events = some final.reader := by
  have simulated (before : Pipeline) (label : PipelineLabel) (after : Pipeline) (_ : True)
      (taken : before.step chunkSize label = some after) :
      ∃ events, (∀ event ∈ events, PushAnswer event) ∧
        Schedules.run (Reader.step chunkSize) before.reader events = some after.reader := by
    rcases step_reader taken with same | ⟨event, goes, gives⟩
    · exact ⟨[], by simp, by rw [same, Schedules.run_nil]⟩
    · refine ⟨[event], ?_, (Schedules.run_cons_iff _ _ _ _ _).mpr ⟨_, goes, rfl⟩⟩
      intro other member
      rw [List.mem_singleton.mp member]
      cases event with
      | pushed answer => exact gives.imp id (Or.imp id And.left)
      | _ => trivial
  exact Schedules.run_projects_admitted Pipeline.reader (fun _ _ _ _ _ => trivial) simulated trivial
    completed

/-- In every run of the threads, under either policy and with any answers of the poller
and of `read`, the reader makes only calls of the queue that its contract allows, as it
does alone. -/
theorem pipeline_reader_safe {chunkSize : Nat} (positive : 0 < chunkSize) (capacity : Nat)
    (policy : Policy) (blocks : Nat → List Byte) (stdin : List Byte)
    (schedule : List PipelineLabel) (final : Pipeline)
    (completed : Schedules.run (Pipeline.step chunkSize)
      (Pipeline.start capacity policy blocks stdin) schedule = some final) :
    ∃ events, ReaderSafe chunkSize events final.reader := by
  obtain ⟨events, answers, ran⟩ := pipeline_refines_reader completed
  exact ⟨events, followed_safe positive (run_followed positive answers ran)⟩

end JPipe
