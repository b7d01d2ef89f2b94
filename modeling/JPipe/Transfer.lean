import JPipe.File

/-!
# The indices of a vectored write

`jp_file_writev` keeps a pointer into the array it was given, a signed count of
the entries left and a signed status. Here they are an index, and integers, and
every access to an entry is checked: reading past the end of the array is an
outcome of its own, apart from returning and from waiting for an answer of
`writev`. A length is a `size_t` that the source casts to `ssize_t`; `writev`
answers no count when the lengths add up to more than the largest of these.

The list model of `JPipe.File` has the entries passed and the entries left as two
lists. An index between them is what the source has, so each turn of the loop
here is a turn there, and the facts about the bytes are taken from there.
-/

namespace JPipe

/-- The call between two answers of `writev`: the array as it is, the index of
the first entry left, how many are left, and what reached the descriptor. -/
structure Writing where
  array : List Iovec
  first : Nat
  count : Int
  written : List Byte

/-- Where a call stands after some answers. -/
inductive Transfer where
  | asking (state : Writing)
  | returned (err : Errno) (state : Writing)
  | outside

/-- The loop over the entries a count covers. It has no result when it reads an
entry outside of the array. -/
def skipEntries (array : List Iovec) (first : Nat) (count status : Int) :
    Option (Nat × Int × Int) :=
  if 0 < count then
    match array[first]? with
    | none => none
    | some entry =>
      if status ≥ entry.len then
        skipEntries array (first + 1) (count - 1) (status - entry.len)
      else some (first, count, status)
  else some (first, count, status)
termination_by count.toNat
decreasing_by omega

/-- The test at the head of the outer loop. -/
def Writing.head (state : Writing) : Transfer :=
  if 0 < state.count then .asking state else .returned .ok state

/-- The entries `writev` is asked to write. -/
def Writing.left (state : Writing) : List Iovec :=
  (state.array.drop state.first).take state.count.toNat

/-- The body of the outer loop, on one answer. `writev` itself reads all the
entries it is asked to write. -/
def Writing.turn (memory : Memory) (state : Writing) (answer : WritevResult) : Transfer :=
  if state.array.length < state.first + state.count then .outside
  else
    match answer with
    | .eintr => state.head
    | .failed => .returned .ewriteFailed state
    | .wrote status =>
      if status = 0 then .returned .ewriteFailed state
      else
        let written := state.written ++ (contents memory state.left).take status
        match skipEntries state.array state.first state.count status with
        | none => .outside
        | some (first, count, remaining) =>
          if 0 < count ∧ 0 < remaining then
            match state.array[first]? with
            | none => .outside
            | some entry =>
              let moved : Iovec :=
                { base := { entry.base with offset := entry.base.offset + remaining.toNat },
                  len := entry.len - remaining.toNat }
              Writing.head { array := state.array.set first moved, first, count, written }
          else Writing.head { array := state.array, first, count, written }

/-- A call with the whole array left. -/
def Writing.start (iov : List Iovec) : Writing :=
  { array := iov, first := 0, count := iov.length, written := [] }

/-- The call after a sequence of answers; those after its return are not used. -/
def Transfer.after (memory : Memory) : Transfer → List WritevResult → Transfer
  | transfer, [] => transfer
  | .asking state, answer :: rest => (state.turn memory answer).after memory rest
  | .returned err state, _ :: _ => .returned err state
  | .outside, _ :: _ => .outside

/-- Answers `writev` can give: a count is at most what was asked for. -/
def Transfer.Answerable (memory : Memory) : Transfer → List WritevResult → Prop
  | .asking state, answer :: rest =>
    (∀ status, answer = .wrote status → status ≤ requested state.left) ∧
      (state.turn memory answer).Answerable memory rest
  | _, _ => True

/-- The call with these entries passed, these left, and these bytes written. -/
def Writing.between (passed pending : List Iovec) (written : List Byte) : Writing :=
  { array := passed ++ pending, first := passed.length, count := pending.length, written }

@[simp] theorem between_left (passed pending : List Iovec) (written : List Byte) :
    (Writing.between passed pending written).left = pending := by
  simp [Writing.between, Writing.left]

theorem between_array (passed pending : List Iovec) (written : List Byte) :
    (Writing.between passed pending written).array = passed ++ pending := rfl

theorem between_first (passed pending : List Iovec) (written : List Byte) :
    (Writing.between passed pending written).first = passed.length := rfl

theorem between_count (passed pending : List Iovec) (written : List Byte) :
    (Writing.between passed pending written).count = pending.length := rfl

theorem between_written (passed pending : List Iovec) (written : List Byte) :
    (Writing.between passed pending written).written = written := rfl

/-- Between two lists of entries the index stays inside of the array: the loop
over the entries a count covers is the one over the list. -/
theorem skip_entries_eq (passed pending : List Iovec) (status : Nat) :
    skipEntries (passed ++ pending) passed.length pending.length status =
      some (passed.length + (skipWritten pending status).1.length,
        ((skipWritten pending status).2.1.length : Int), ((skipWritten pending status).2.2 : Int)) := by
  induction pending generalizing passed status with
  | nil => simp [skipEntries, skipWritten]
  | cons entry rest ih =>
    have some : (0 : Int) < (entry :: rest).length := by simp
    have read : (passed ++ entry :: rest)[passed.length]? = .some entry := by simp
    rw [skipEntries, if_pos some, read, skipWritten]
    simp only
    by_cases covered : status ≥ entry.len
    · have moved := ih (passed ++ [entry]) (status - entry.len)
      rw [List.append_assoc, List.singleton_append, List.length_append, List.length_singleton] at moved
      have fewer : ((entry :: rest).length : Int) - 1 = rest.length := by simp
      have less : (status : Int) - entry.len = ((status - entry.len : Nat) : Int) := by omega
      rw [if_pos (by omega), if_pos covered, fewer, less, moved]
      simp only [List.length_cons, Option.some.injEq, Prod.mk.injEq, and_true]
      omega
    · rw [if_neg (by omega), if_neg covered]
      simp

/-- The entry a count ends in is moved in its place. -/
theorem turn_between (memory : Memory) (passed pending : List Iovec) (written : List Byte)
    {status : Nat} (positive : 0 < status) (bounded : status ≤ requested pending) :
    (Writing.between passed pending written).turn memory (.wrote status) =
      (Writing.between (passed ++ (skipWritten pending status).1)
        (advanceFirst (skipWritten pending status).2.1 (skipWritten pending status).2.2)
        (written ++ (contents memory pending).take status)).head := by
  have skips := skip_written_skips pending status bounded
  have skipping := skip_entries_eq passed pending status
  generalize skipWritten pending status = result at skips skipping ⊢
  obtain ⟨skipped, left, remaining⟩ := result
  obtain ⟨split, _, finished, _⟩ := skips
  simp only at split finished skipping ⊢
  have inside : ¬ (((passed ++ pending).length : Int) < passed.length + pending.length) := by
    simp
  rw [Writing.turn]
  simp only [between_left, between_written, between_array, between_first, between_count]
  rw [if_neg inside, if_neg positive.ne', skipping]
  simp only
  by_cases moves : (0 : Int) < left.length ∧ (0 : Int) < remaining
  · cases left with
    | nil => exact absurd moves.1 (by simp)
    | cons entry rest =>
      have some : remaining > 0 := by omega
      have read : (passed ++ pending)[passed.length + skipped.length]? = .some entry := by
        rw [split, ← List.append_assoc, ← List.length_append]
        simp
      rw [if_pos moves, read]
      simp only [advanceFirst, if_pos some, split, Int.toNat_natCast]
      rw [← List.append_assoc, ← List.length_append, List.set_append_right _ _ (Nat.le_refl _)]
      simp [Writing.between]
  · have whole : advanceFirst left remaining = left := by
      cases left with
      | nil => rfl
      | cons entry rest =>
        have none : ¬ remaining > 0 := fun some => moves ⟨by simp, by omega⟩
        rw [advanceFirst, if_neg none]
    rw [if_neg moves, whole]
    simp [Writing.between, split]

/-! ### Every answer -/

/-- What holds of a call whenever it stands at the head of its outer loop: the
entries left end where the array ends, what was written and what is left are the
bytes of the array, and there are bytes left as long as there are entries left. -/
structure Writing.Sound (memory : Memory) (iov : List Iovec) (state : Writing) : Prop where
  count : 0 ≤ state.count
  within : state.first + state.count = iov.length
  size : state.array.length = iov.length
  split : state.written ++ contents memory state.left = contents memory iov
  pending : 0 < state.count → 0 < requested state.left

/-- A sound call stands between the entries passed and the entries left. -/
theorem sound_between {memory : Memory} {iov : List Iovec} {state : Writing}
    (sound : state.Sound memory iov) :
    ∃ passed pending, state = Writing.between passed pending state.written := by
  have count := sound.count
  have within := sound.within
  have size := sound.size
  refine ⟨state.array.take state.first, state.array.drop state.first, ?_⟩
  obtain ⟨array, first, count, written⟩ := state
  simp only at *
  simp only [Writing.between, List.take_append_drop, List.length_take, List.length_drop,
    Writing.mk.injEq, true_and, and_true]
  omega

/-- Soundness of a call between two lists of entries. -/
theorem between_sound_iff (memory : Memory) (iov passed pending : List Iovec) (written : List Byte) :
    (Writing.between passed pending written).Sound memory iov ↔
      passed.length + pending.length = iov.length ∧
        written ++ contents memory pending = contents memory iov ∧
        (pending ≠ [] → 0 < requested pending) := by
  have some : (0 : Int) < pending.length ↔ pending ≠ [] := by
    rw [Int.natCast_pos, List.length_pos_iff]
  constructor
  · intro ⟨_, within, _, split, left⟩
    simp only [between_left, between_first, between_count, between_written, some] at within split left
    exact ⟨by omega, split, left⟩
  · intro ⟨size, split, left⟩
    constructor <;>
      simp only [between_left, between_array, between_first, between_count, between_written, some,
        List.length_append]
    · omega
    · omega
    · exact size
    · exact split
    · exact left

/-- Everything left, and nothing written. -/
theorem start_sound (memory : Memory) (iov : List Iovec) (total : 0 < requested iov) :
    (Writing.start iov).Sound memory iov := by
  have stands : Writing.start iov = Writing.between [] iov [] := rfl
  rw [stands, between_sound_iff]
  exact ⟨by simp, rfl, fun _ => total⟩

/-- Moving the first entry keeps the number of entries, and some bytes of it. -/
theorem advance_first_left {left : List Iovec} {remaining : Nat}
    (partway : ∀ entry rest, left = entry :: rest → remaining < entry.len) :
    (advanceFirst left remaining).length = left.length ∧
      (advanceFirst left remaining ≠ [] → 0 < requested (advanceFirst left remaining)) := by
  cases left with
  | nil => simp [advanceFirst]
  | cons entry rest =>
    have inside := partway entry rest rfl
    rw [advanceFirst]
    split
    · refine ⟨rfl, fun _ => ?_⟩
      simp only [requested, List.map_cons, List.sum_cons]
      omega
    · refine ⟨rfl, fun _ => ?_⟩
      simp only [requested, List.map_cons, List.sum_cons]
      omega

/-- A positive count leaves a sound call at the head of its loop, with exactly
the bytes counted fewer left. -/
theorem turn_wrote {memory : Memory} {iov : List Iovec} {state : Writing}
    (sound : state.Sound memory iov) {status : Nat} (positive : 0 < status)
    (bounded : status ≤ requested state.left) :
    ∃ next : Writing, state.turn memory (.wrote status) = next.head ∧ next.Sound memory iov ∧
      requested next.left + status = requested state.left ∧
      next.written = state.written ++ (contents memory state.left).take status := by
  obtain ⟨passed, pending, stands⟩ := sound_between sound
  generalize state.written = written at stands
  subst stands
  obtain ⟨size, whole, _⟩ := (between_sound_iff memory iov passed pending written).mp sound
  rw [between_left] at bounded
  have turned := turn_between memory passed pending written positive bounded
  have skips := skip_written_skips pending status bounded
  have resumed := contents_resumed memory skips
  obtain ⟨moved, left⟩ := advance_first_left skips.partway
  refine ⟨_, turned, ?_, ?_, ?_⟩
  · rw [between_sound_iff]
    have split := congrArg List.length skips.split
    refine ⟨?_, ?_, left⟩
    · rw [List.length_append] at split ⊢
      omega
    · rw [List.append_assoc, resumed, whole]
  · have bytes := congrArg List.length resumed
    rw [List.length_append, List.length_take, contents_length, contents_length] at bytes
    rw [between_left, between_left]
    omega
  · rw [between_written, between_left]

/-- Where a call that was sound may stand: it asks for the bytes left, or it
returned with nothing left, or it failed with something left. -/
def Transfer.Sound (memory : Memory) (iov : List Iovec) : Transfer → Prop
  | .asking state => state.Sound memory iov ∧ 0 < state.count
  | .returned err state => state.Sound memory iov ∧
      (err = .ok ∧ state.count = 0 ∨ err = .ewriteFailed ∧ 0 < state.count)
  | .outside => False

theorem head_sound {memory : Memory} {iov : List Iovec} {state : Writing}
    (sound : state.Sound memory iov) : state.head.Sound memory iov := by
  have count := sound.count
  unfold Writing.head
  split
  · exact ⟨sound, by assumption⟩
  · exact ⟨sound, Or.inl ⟨rfl, by omega⟩⟩

/-- A turn of a sound call reads no entry outside of the array, and is sound. -/
theorem turn_sound {memory : Memory} {iov : List Iovec} {state : Writing}
    (sound : state.Sound memory iov) (some : 0 < state.count) (answer : WritevResult)
    (answerable : ∀ status, answer = .wrote status → status ≤ requested state.left) :
    (state.turn memory answer).Sound memory iov := by
  have within := sound.within
  have inside : ¬ ((state.array.length : Int) < state.first + state.count) := by
    rw [sound.size, within]
    omega
  cases answer with
  | eintr =>
    rw [Writing.turn, if_neg inside]
    exact head_sound sound
  | failed =>
    rw [Writing.turn, if_neg inside]
    exact ⟨sound, Or.inr ⟨rfl, some⟩⟩
  | wrote status =>
    by_cases none : status = 0
    · rw [Writing.turn, if_neg inside]
      simp only [if_pos none]
      exact ⟨sound, Or.inr ⟨rfl, some⟩⟩
    · obtain ⟨next, turned, nextSound, _⟩ :=
        turn_wrote sound (Nat.pos_of_ne_zero none) (answerable status rfl)
      rw [turned]
      exact head_sound nextSound

/-- After any answers `writev` can give, a sound call is sound. -/
theorem after_sound {memory : Memory} {iov : List Iovec} (answers : List WritevResult)
    {transfer : Transfer} (sound : transfer.Sound memory iov)
    (answerable : transfer.Answerable memory answers) :
    (transfer.after memory answers).Sound memory iov := by
  induction answers generalizing transfer with
  | nil => rwa [Transfer.after]
  | cons answer rest ih =>
    cases transfer with
    | outside => exact sound
    | returned err state => exact sound
    | asking state => exact ih (turn_sound sound.1 sound.2 answer answerable.1) answerable.2

/-- A call returns from its head only with success. -/
theorem head_returned {state next : Writing} {err : Errno}
    (returned : state.head = .returned err next) : err = .ok := by
  rw [Writing.head] at returned
  split at returned
  · cases returned
  · exact (Transfer.returned.inj returned).1.symm

/-- After an answer that is no failure a call goes on, or returns with success. -/
theorem turn_succeeds {memory : Memory} {state next : Writing} {answer : WritevResult}
    {err : Errno} (resumable : Resumable answer)
    (turned : state.turn memory answer = .returned err next) : err = .ok := by
  cases answer with
  | eintr =>
    rw [Writing.turn] at turned
    split at turned
    · cases turned
    · exact head_returned turned
  | failed => exact absurd resumable id
  | wrote status =>
    have some : status ≠ 0 := Nat.pos_iff_ne_zero.mp resumable
    simp only [Writing.turn, if_neg some] at turned
    split at turned
    · cases turned
    · split at turned
      · cases turned
      · split at turned
        · split at turned
          · cases turned
          · exact head_returned turned
        · exact head_returned turned

/-- The answers that are not `EINTR`. -/
def uninterrupted (answers : List WritevResult) : Nat :=
  (answers.filter fun answer => answer ≠ .eintr).length

/-- A sound call returns within as many answers other than `EINTR` as it has
bytes left: each of them is an error, or counts some of these bytes. -/
theorem after_returns {memory : Memory} {iov : List Iovec} (answers : List WritevResult)
    {state : Writing} (sound : state.Sound memory iov)
    (answerable : state.head.Answerable memory answers)
    (enough : requested state.left ≤ uninterrupted answers) :
    ∃ err final, state.head.after memory answers = .returned err final := by
  induction answers generalizing state with
  | nil =>
    have done : ¬ 0 < state.count := fun some => by
      have left := sound.pending some
      exact absurd enough (Nat.not_le.mpr left)
    exact ⟨.ok, state, by rw [Writing.head, if_neg done, Transfer.after]⟩
  | cons answer rest ih =>
    by_cases some : 0 < state.count
    · have within := sound.within
      have inside : ¬ ((state.array.length : Int) < state.first + state.count) := by
        rw [sound.size, within]
        omega
      have returns (err : Errno) (final : Writing) :
          ∃ e f, (Transfer.returned err final).after memory rest = .returned e f := by
        cases rest <;> exact ⟨err, final, rfl⟩
      rw [Writing.head, if_pos some] at answerable ⊢
      rw [Transfer.after]
      obtain ⟨bounded, others⟩ := answerable
      cases answer with
      | eintr =>
        rw [Writing.turn, if_neg inside] at others ⊢
        exact ih sound others (by simpa [uninterrupted] using enough)
      | failed =>
        rw [Writing.turn, if_neg inside]
        exact returns .ewriteFailed state
      | wrote status =>
        by_cases none : status = 0
        · rw [Writing.turn, if_neg inside]
          simp only [if_pos none]
          exact returns .ewriteFailed state
        · obtain ⟨next, turned, nextSound, fewer, _⟩ :=
            turn_wrote sound (Nat.pos_of_ne_zero none) (bounded status rfl)
          rw [turned] at others ⊢
          apply ih nextSound others
          simp only [uninterrupted, List.filter_cons, ne_eq, reduceCtorEq, not_false_eq_true,
            decide_true, ↓reduceIte, List.length_cons] at enough ⊢
          omega
    · refine ⟨.ok, state, ?_⟩
      rw [Writing.head, if_neg some, Transfer.after]

/-- A call that has not failed yet, and that no answer fails, returns with success if
it returns. -/
theorem after_succeeds {memory : Memory} (answers : List WritevResult) {transfer : Transfer}
    {final : Writing} {err : Errno} (resumable : ∀ answer ∈ answers, Resumable answer)
    (unfailed : ∀ status state, transfer = .returned status state → status = .ok)
    (returned : transfer.after memory answers = .returned err final) : err = .ok := by
  induction answers generalizing transfer with
  | nil => exact unfailed err final returned
  | cons answer rest ih =>
    have others := fun other member => resumable other (List.mem_cons_of_mem answer member)
    cases transfer with
    | outside => cases returned
    | returned status state =>
      obtain ⟨rfl, _⟩ := Transfer.returned.inj returned
      exact unfailed _ state rfl
    | asking state =>
      refine ih others (fun status next turned => ?_) returned
      exact turn_succeeds (resumable answer List.mem_cons_self) turned

/-- What a call may say about the descriptor, and where it may stand in its array. -/
structure Transfers (memory : Memory) (iov : List Iovec) (transfer : Transfer) : Prop where
  inside : transfer ≠ .outside
  count : ∀ state, (transfer = .asking state ∨ ∃ err, transfer = .returned err state) →
    0 ≤ state.count ∧ state.first + state.count = iov.length
  delivered : ∀ state, transfer = .returned .ok state → state.written = contents memory iov
  failed : ∀ err state, transfer = .returned err state → err ≠ .ok → err = .ewriteFailed ∧
    ∃ rest, rest ≠ [] ∧ state.written ++ rest = contents memory iov

theorem sound_transfers {memory : Memory} {iov : List Iovec} {transfer : Transfer}
    (sound : transfer.Sound memory iov) : Transfers memory iov transfer := by
  have empty (state : Writing) (none : state.count = 0) : state.left = [] := by
    simp [Writing.left, none]
  constructor
  · intro outside
    rw [outside] at sound
    exact sound
  · intro state stands
    have own : state.Sound memory iov := by
      cases stands with
      | inl asking =>
        rw [asking] at sound
        exact sound.1
      | inr returned =>
        obtain ⟨err, returned⟩ := returned
        rw [returned] at sound
        exact sound.1
    exact ⟨own.count, own.within⟩
  · intro state returned
    rw [returned] at sound
    obtain ⟨own, ⟨_, none⟩ | ⟨wrong, _⟩⟩ := sound
    · have split := own.split
      rwa [empty state none, contents, List.flatMap_nil, List.append_nil] at split
    · cases wrong
  · intro err state returned bad
    rw [returned] at sound
    obtain ⟨own, ⟨good, _⟩ | ⟨failed, some⟩⟩ := sound
    · exact absurd good bad
    · refine ⟨failed, contents memory state.left, ?_, own.split⟩
      have left := own.pending some
      rw [← contents_length memory] at left
      exact List.ne_nil_of_length_pos left

/-- For every array with bytes to write and all answers `writev` can give.

The call stays inside of its array, returns success only when the descriptor
received exactly the bytes of the array in order, and the error only after a
proper prefix of them. Each positive count decreases the bytes left by itself,
and the call returns once as many answers other than `EINTR` came as there were
bytes: with success, if none of the answers is an error or an empty count. -/
theorem writev_transfers (memory : Memory) (iov : List Iovec) (total : 0 < requested iov)
    (answers : List WritevResult)
    (answerable : (Writing.start iov).head.Answerable memory answers) :
    Transfers memory iov ((Writing.start iov).head.after memory answers) ∧
      (∀ state status, (Writing.start iov).head.after memory answers = .asking state →
        0 < status → status ≤ requested state.left →
        ∃ next : Writing, state.turn memory (.wrote status) = next.head ∧
          requested next.left + status = requested state.left) ∧
      (requested iov ≤ uninterrupted answers →
        ∃ err state, (Writing.start iov).head.after memory answers = .returned err state ∧
          ((∀ answer ∈ answers, Resumable answer) → err = .ok)) := by
  have start := start_sound memory iov total
  have sound := after_sound answers (head_sound start) answerable
  refine ⟨sound_transfers sound, ?_, ?_⟩
  · intro state status asking positive bounded
    rw [asking] at sound
    obtain ⟨next, turned, _, fewer, _⟩ := turn_wrote sound.1 positive bounded
    exact ⟨next, turned, fewer⟩
  · intro enough
    obtain ⟨err, state, returned⟩ := after_returns answers start answerable
      (by simpa [Writing.start, Writing.left] using enough)
    exact ⟨err, state, returned, fun resumable => after_succeeds answers resumable
      (fun _ _ => head_returned) returned⟩

/-- An empty entry and three bytes, written by two counts and an interruption between them. -/
theorem three_bytes_transferred :
    Transfers (fun _ offset => UInt8.ofNat offset) [⟨⟨0, 0⟩, 0⟩, ⟨⟨1, 0⟩, 3⟩]
      ((Writing.start [⟨⟨0, 0⟩, 0⟩, ⟨⟨1, 0⟩, 3⟩]).head.after
        (fun _ offset => UInt8.ofNat offset) [.wrote 1, .eintr, .wrote 2]) := by
  refine (writev_transfers (fun _ offset => UInt8.ofNat offset) [⟨⟨0, 0⟩, 0⟩, ⟨⟨1, 0⟩, 3⟩] (by decide)
    [.wrote 1, .eintr, .wrote 2] ?_).1
  simp [Writing.start, Writing.head, Transfer.Answerable, Writing.turn, Writing.left, skipEntries,
    requested]

/-- A returned call of the list model is one of this loop: it used some of the
answers, and left the same array, the same bytes and the same status. -/
theorem file_writev_after (memory : Memory) (iov : List Iovec) (script : List WritevResult)
    (call : WritevCall) (returned : jpFileWritev memory iov script = some call) :
    ∃ used state, script = used ++ call.script ∧
      (Writing.start iov).head.after memory used = .returned call.err state ∧
      state.array = call.iov ∧ state.written = call.written := by
  have loop (script : List WritevResult) (passed pending : List Iovec) (written : List Byte)
      (ended : writevLoop memory script passed pending written = some call) :
      ∃ used state, script = used ++ call.script ∧
        (Writing.between passed pending written).head.after memory used =
          .returned call.err state ∧
        state.array = call.iov ∧ state.written = call.written := by
    have asks (passed : List Iovec) (entry : Iovec) (rest : List Iovec) (written : List Byte) :
        (Writing.between passed (entry :: rest) written).head =
          .asking (Writing.between passed (entry :: rest) written) := by
      simp [Writing.head, Writing.between]
    have inside (passed pending : List Iovec) (written : List Byte) :
        ¬ (((Writing.between passed pending written).array.length : Int) <
          (Writing.between passed pending written).first +
            (Writing.between passed pending written).count) := by
      simp [Writing.between]
    fun_induction writevLoop memory script passed pending written with
    | case1 script passed written =>
      obtain rfl := Option.some.inj ended
      exact ⟨[], Writing.between passed [] written, rfl, rfl, List.append_nil passed, rfl⟩
    | case2 => cases ended
    | case3 passed written script entry rest ih =>
      obtain ⟨used, state, split, after, same⟩ := ih ended
      refine ⟨.eintr :: used, state, by rw [split]; rfl, ?_, same⟩
      rw [asks, Transfer.after, Writing.turn, if_neg (inside _ _ _)]
      exact after
    | case4 script passed entry rest written =>
      obtain rfl := Option.some.inj ended
      refine ⟨[.failed], Writing.between passed (entry :: rest) written, rfl, ?_, rfl, rfl⟩
      rw [asks, Transfer.after, Writing.turn, if_neg (inside _ _ _)]
      rfl
    | case5 => cases ended
    | case6 script passed entry rest written =>
      obtain rfl := Option.some.inj ended
      refine ⟨[.wrote 0], Writing.between passed (entry :: rest) written, rfl, ?_, rfl, rfl⟩
      rw [asks, Transfer.after, Writing.turn, if_neg (inside _ _ _)]
      rfl
    | case7 status script passed entry rest written bounded nonzero skipped left remaining skipping ih =>
      obtain ⟨used, state, split, after, same⟩ := ih ended
      have turned := turn_between memory passed (entry :: rest) written
        (Nat.pos_of_ne_zero nonzero) (Nat.not_lt.mp bounded)
      rw [skipping] at turned
      refine ⟨.wrote status :: used, state, by rw [split]; rfl, ?_, same⟩
      rw [asks, Transfer.after, turned]
      exact after
  exact loop script [] iov [] returned

end JPipe
