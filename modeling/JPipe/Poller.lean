import JPipe.Reader
import JPipe.ReaderSafety
import JPipe.Schedules
import Mathlib.Data.List.Basic

/-!
# The two pollers

`kqueue.c` sets `O_NONBLOCK` on the input when it registers it, `epoll.c` does
not. The reader runs over a pipe whose other end may write and close at any time;
the pollers may report readiness or a timeout at any time as well. A `read` on an
empty open pipe answers `EAGAIN` when the flag is set and blocks otherwise.

The reader flushes a partly filled block only on `EAGAIN`. Over a pipe in
blocking mode that answer never comes with `epoll`, and the reader blocks inside
of `read` with whatever the block holds.
-/

namespace JPipe

/-- The implementation of `jp_poller.h` that was built. -/
inductive PollerKind where
  | epoll
  | kqueue
deriving DecidableEq, Repr

/-- The reader over a pipe: the bytes not read yet, whether the other end is
closed, and whether `O_NONBLOCK` is set. -/
structure PipeReader where
  reader : Reader
  pending : List Byte
  closed : Bool
  nonblock : Bool
deriving DecidableEq, Repr

/-- A call of the reader, or what the other end does. -/
inductive PipeLabel where
  | call (event : ReaderEvent)
  | arrive (bytes : List Byte)
  | close
deriving DecidableEq, Repr

/-- `jp_poller_poll`: the flag after a registration. -/
def jpPollerPoll (poller : PollerKind) (nonblock : Bool) : Bool :=
  match poller with
  | .epoll => nonblock
  | .kqueue => true

/-- What a call of `epoll_wait` or `kevent` comes to: nothing in time, `EINTR` or
`EAGAIN`, another error, or an event, on which `kevent` may report an error of its own. -/
inductive PollerEvent where
  | timeout
  | again
  | failed
  | ready (evError : Bool)
deriving DecidableEq, Repr

/-- `jp_poller_wait`. -/
def jpPollerWait (poller : PollerKind) : PollerEvent → Errno
  | .timeout | .again => .etryagain
  | .failed => .ereadFailed
  | .ready evError => if poller = .kqueue ∧ evError then .ereadFailed else .ok

/-- The status of `jp_poller_create` and of `jp_poller_poll`, by whether a system call
fails. -/
def pollerStatus (failed : Bool) : Errno := if failed then .ereadFailed else .ok

/-- A pipe in blocking mode, before the reader starts. -/
def PipeReader.start : PipeReader where
  reader := Reader.start
  pending := []
  closed := false
  nonblock := false

/-- What an answer of `read` or a registration does to the pipe, if the pipe can
give it. -/
def PipeReader.answer (poller : PollerKind) (state : PipeReader) :
    ReaderEvent → Option PipeReader
  | .registered _ => some { state with nonblock := jpPollerPoll poller state.nonblock }
  | .read (.data bytes) =>
    if bytes <+: state.pending then
      some { state with pending := state.pending.drop bytes.length }
    else none
  | .read .eof => if state.pending = [] ∧ state.closed then some state else none
  | .read .eagain =>
    if state.pending = [] ∧ !state.closed ∧ state.nonblock then some state else none
  | _ => some state

/-- One step of the reader or of the other end. -/
def PipeReader.step (poller : PollerKind) (chunkSize : Nat) (state : PipeReader) :
    PipeLabel → Option PipeReader
  | .call event =>
    (state.answer poller event).bind fun answered =>
      (state.reader.step chunkSize event).map fun reader => { answered with reader := reader }
  | .arrive bytes =>
    if state.closed then none else some { state with pending := state.pending ++ bytes }
  | .close => some { state with closed := true }

/-- The reader is inside `jp_poller_wait`, or inside `read` on an empty open pipe
in blocking mode. -/
def PipeReader.Blocked (state : PipeReader) : Prop :=
  state.reader.point = .wait ∨
    state.reader.point = .read ∧ state.pending = [] ∧ !state.closed ∧ !state.nonblock

/-- The last answer of the queue and the number of bytes stored in blocks. -/
def countStored (known : Errno × Nat) : PipeLabel → Errno × Nat
  | .call (.pushed answer) => (answer, known.2)
  | .call (.read (.data bytes)) =>
    (known.1, if known.1 = .emsgShouldDrop then known.2 else known.2 + bytes.length)
  | _ => known

/-- The number of bytes stored in blocks in a run: those read while the queue did
not answer `JP_EMSG_SHOULD_DROP`. -/
def storedBytes (past : List PipeLabel) : Nat := (past.foldl countStored (.ok, 0)).2

/-! ### What the block holds where the reader blocks -/

/-- How the block stands to the bytes stored at each point, if `EAGAIN` never
comes. -/
def Reader.StoresAt (chunkSize stored : Nat) (reader : Reader) : ReaderPoint → Prop
  | .create | .register | .wait => stored = 0
  | .reserve | .commitFull => chunkSize ∣ stored
  | .read => reader.held.length % chunkSize = stored % chunkSize
  | .commitAgain => False
  | .commitEnd | .cleanUp | .returned => True

/-- The last answer of the queue is the one the reader remembers. -/
theorem answer_counted {chunkSize : Nat} {reader next : Reader} {event : ReaderEvent}
    (taken : reader.step chunkSize event = some next) (stored : Nat) :
    (countStored (reader.queueErr, stored) (.call event)).1 = next.queueErr := by
  cases step_reads taken with
  | waited answer standing =>
    rcases after_wait_cases reader answer with ⟨_, moved⟩ | ⟨_, moved⟩ | ⟨_, _, moved⟩ <;>
      rw [moved] <;> rfl
  | _ => rfl

/-- At the top of the inner loop the block stays in step with the bytes stored. -/
theorem loop_top_stores {chunkSize stored : Nat} {reader : Reader}
    (part : reader.held.length % chunkSize = stored % chunkSize) :
    reader.loopTop.StoresAt chunkSize stored reader.loopTop.point := by
  cases block : reader.block with
  | none =>
    have top : reader.loopTop.point = .reserve := by simp [Reader.loopTop, block]
    rw [held_of_none block, List.length_nil, Nat.zero_mod] at part
    rw [top]
    exact Nat.dvd_of_mod_eq_zero part.symm
  | some content =>
    have top : reader.loopTop.point = .read := by simp [Reader.loopTop, block]
    rw [top]
    exact part

/-- What is known of the bytes stored where the reader stands. -/
theorem stores_at {chunkSize stored : Nat} {reader : Reader} {point : ReaderPoint}
    (stores : reader.StoresAt chunkSize stored reader.point) (standing : reader.point = point) :
    reader.StoresAt chunkSize stored point := standing ▸ stores

/-- Every call but one answered `EAGAIN` keeps the block in step with the bytes
stored. -/
theorem step_stores {chunkSize stored : Nat} {reader next : Reader} {event : ReaderEvent}
    (accounted : Accounted chunkSize reader)
    (stores : reader.StoresAt chunkSize stored reader.point)
    (taken : reader.step chunkSize event = some next) (going : event ≠ .read .eagain) :
    next.StoresAt chunkSize (countStored (reader.queueErr, stored) (.call event)).2 next.point := by
  have grown (bytes content : List Byte) (block : reader.block = some content)
      (part : reader.held.length % chunkSize = stored % chunkSize) :
      (content.length + bytes.length) % chunkSize = (stored + bytes.length) % chunkSize := by
    apply Nat.ModEq.add_right
    rw [Reader.held, block] at part
    exact part
  cases step_reads taken with
  | created answer standing | registered answer standing =>
    have none : stored = 0 := stores_at stores standing
    by_cases succeeded : answer = .ok <;> simp [succeeded, Reader.StoresAt, countStored, none]
  | waited answer standing =>
    have none : stored = 0 := stores_at stores standing
    have empty : reader.held = [] := stands_at accounted standing
    rcases after_wait_cases reader answer with ⟨_, moved⟩ | ⟨_, moved⟩ | ⟨_, _, moved⟩ <;>
      rw [moved]
    · trivial
    · exact none
    · apply loop_top_stores
      change reader.held.length % chunkSize = stored % chunkSize
      rw [empty, none, List.length_nil]
  | pushed answer standing =>
    have multiple : chunkSize ∣ stored := stores_at stores standing
    have none : reader.block = none := stands_at accounted standing
    by_cases shutting : answer = .eshuttingDown
    · simp [Reader.afterPush, shutting, Reader.StoresAt]
    · by_cases reserved : answer = .ok <;>
        simp [Reader.afterPush, reserved, shutting, Reader.StoresAt, Reader.held, countStored, none,
          Nat.mod_eq_zero_of_dvd multiple]
  | discarded bytes standing dropping _ _ =>
    have part : reader.held.length % chunkSize = stored % chunkSize := stores_at stores standing
    rw [countStored, dropping]
    exact loop_top_stores part
  | filled bytes content standing keeping block _ full =>
    have whole := grown bytes content block (stores_at stores standing)
    rw [full, Nat.mod_self] at whole
    rw [countStored, if_neg keeping]
    exact Nat.dvd_of_mod_eq_zero whole.symm
  | stored bytes content standing keeping block _ room =>
    have part := grown bytes content block (stores_at stores standing)
    rw [countStored, if_neg keeping]
    change (content ++ bytes).length % chunkSize = (stored + bytes.length) % chunkSize
    rw [List.length_append]
    exact part
  | ended standing =>
    by_cases partly : reader.queueErr = .ok ∧ reader.held.length > 0 <;>
      simp [partly, Reader.StoresAt]
  | interrupted standing => exact loop_top_stores (stores_at stores standing)
  | drained standing => exact absurd rfl going
  | failed standing => trivial
  | committedFull standing =>
    have multiple : chunkSize ∣ stored := stores_at stores standing
    apply loop_top_stores
    change 0 % chunkSize = stored % chunkSize
    rw [Nat.mod_eq_zero_of_dvd multiple, Nat.zero_mod]
  | committedEnd standing => trivial
  | committedAgain standing => exact absurd (stores_at stores standing) id
  | finalized standing => trivial

/-- The points before the registration and past the loop. -/
def Reader.Idle (reader : Reader) : Prop :=
  reader.point = .create ∨ reader.point = .register ∨ reader.point = .cleanUp ∨
    reader.point = .returned

/-- Only a registration leads from the points outside of the loop into it. -/
theorem idle_step {chunkSize : Nat} {reader next : Reader} {event : ReaderEvent}
    (idle : reader.Idle) (taken : reader.step chunkSize event = some next)
    (other : ∀ answer, event ≠ .registered answer) : next.Idle := by
  cases step_reads taken with
  | created answer standing =>
    by_cases succeeded : answer = .ok <;> simp [Reader.Idle, succeeded]
  | registered answer standing => exact absurd rfl (other answer)
  | finalized standing => simp [Reader.Idle]
  | _ => simp_all [Reader.Idle]

/-- What holds of a reader over a pipe after the steps `past`. -/
structure Piped (poller : PollerKind) (chunkSize : Nat) (past : List PipeLabel)
    (state : PipeReader) : Prop where
  accounted : Accounted chunkSize state.reader
  answers : (past.foldl countStored (.ok, 0)).1 = state.reader.queueErr
  mode : poller = .kqueue → state.reader.Idle ∨ state.nonblock = true
  stores : poller = .epoll → state.nonblock = false ∧
    state.reader.StoresAt chunkSize (storedBytes past) state.reader.point

/-- The start of a run. -/
theorem start_piped (poller : PollerKind) (chunkSize : Nat) :
    Piped poller chunkSize [] PipeReader.start :=
  ⟨start_accounted chunkSize, rfl, fun _ => Or.inl (Or.inl rfl), fun _ => ⟨rfl, rfl⟩⟩

/-- Only a registration changes the flag. -/
theorem answer_mode {poller : PollerKind} {state answered : PipeReader} {event : ReaderEvent}
    (given : state.answer poller event = some answered) :
    (∃ answer, event = .registered answer ∧
        answered.nonblock = jpPollerPoll poller state.nonblock) ∨
      ((∀ answer, event ≠ .registered answer) ∧ answered.nonblock = state.nonblock) := by
  cases event with
  | registered answer =>
    obtain rfl := Option.some.inj given
    exact Or.inl ⟨answer, rfl, rfl⟩
  | read result =>
    refine Or.inr ⟨by simp, ?_⟩
    cases result with
    | data bytes =>
      by_cases arrived : bytes <+: state.pending
      · simp only [PipeReader.answer, arrived, ↓reduceIte, Option.some.injEq] at given
        rw [← given]
      · simp [PipeReader.answer, arrived] at given
    | eof =>
      by_cases ended : state.pending = [] ∧ state.closed = true
      · simp only [PipeReader.answer, ended, and_self, ↓reduceIte, Option.some.injEq] at given
        rw [← given]
      · simp [PipeReader.answer, ended] at given
    | eagain =>
      by_cases empty : state.pending = [] ∧ (!state.closed) = true ∧ state.nonblock = true
      · rw [PipeReader.answer, if_pos empty] at given
        rw [Option.some.inj given]
      · rw [PipeReader.answer, if_neg empty] at given
        simp at given
    | eintr => rw [Option.some.inj given]
    | failed => rw [Option.some.inj given]
  | _ =>
    refine Or.inr ⟨by simp, ?_⟩
    rw [Option.some.inj given]

/-- Only a pipe in non-blocking mode answers `EAGAIN`. -/
theorem again_nonblock {poller : PollerKind} {state answered : PipeReader}
    (given : state.answer poller (.read .eagain) = some answered) : state.nonblock = true := by
  by_cases empty : state.pending = [] ∧ (!state.closed) = true ∧ state.nonblock = true
  · exact empty.2.2
  · rw [PipeReader.answer, if_neg empty] at given
    simp at given

/-- Every step of a reader over a pipe keeps what holds of it. -/
theorem step_piped {poller : PollerKind} {chunkSize : Nat} (positive : 0 < chunkSize)
    {past : List PipeLabel} {state next : PipeReader} {label : PipeLabel}
    (piped : Piped poller chunkSize past state)
    (taken : state.step poller chunkSize label = some next) :
    Piped poller chunkSize (past ++ [label]) next := by
  cases label with
  | arrive bytes =>
    cases closed : state.closed with
    | true => simp [PipeReader.step, closed] at taken
    | false =>
      obtain rfl : { state with pending := state.pending ++ bytes } = next := by
        simpa [PipeReader.step, closed] using taken
      exact ⟨piped.accounted, by simpa [countStored] using piped.answers, piped.mode,
        by simpa [storedBytes, countStored] using piped.stores⟩
  | close =>
    obtain rfl := Option.some.inj taken
    exact ⟨piped.accounted, by simpa [countStored] using piped.answers, piped.mode,
      by simpa [storedBytes, countStored] using piped.stores⟩
  | call event =>
    obtain ⟨answered, given, following⟩ := Option.bind_eq_some_iff.mp taken
    obtain ⟨reader, stepped, rfl⟩ := Option.map_eq_some_iff.mp following
    have known : past.foldl countStored (.ok, 0) = (state.reader.queueErr, storedBytes past) :=
      Prod.ext piped.answers rfl
    have counted : (past ++ [PipeLabel.call event]).foldl countStored (.ok, 0) =
        countStored (state.reader.queueErr, storedBytes past) (.call event) := by
      rw [List.foldl_append, known]
      rfl
    constructor
    · exact step_accounted positive piped.accounted stepped
    · rw [counted]
      exact answer_counted stepped (storedBytes past)
    · intro kqueue
      rcases answer_mode given with ⟨answer, _, mode⟩ | ⟨other, mode⟩
      · right
        rw [show ({ answered with reader := reader } : PipeReader).nonblock = _ from mode, kqueue]
        rfl
      · cases piped.mode kqueue with
        | inl idle => exact Or.inl (idle_step idle stepped other)
        | inr flag => exact Or.inr (mode.trans flag)
    · intro epoll
      obtain ⟨flag, stores⟩ := piped.stores epoll
      have kept : answered.nonblock = false := by
        rcases answer_mode given with ⟨answer, _, mode⟩ | ⟨_, mode⟩
        · rw [mode, epoll]
          exact flag
        · exact mode.trans flag
      have going : event ≠ .read .eagain := by
        intro again
        subst again
        exact absurd (again_nonblock given) (by simp [flag])
      refine ⟨kept, ?_⟩
      rw [storedBytes, counted]
      exact step_stores piped.accounted stores stepped going

/-- Where the reader blocks it holds nothing exactly when the poller made the pipe
non-blocking, or the bytes stored in blocks so far make up whole blocks. -/
theorem blocked_empty_iff (poller : PollerKind) {chunkSize : Nat} (positive : 0 < chunkSize)
    (schedule : List PipeLabel) (final : PipeReader)
    (completed : Schedules.run (PipeReader.step poller chunkSize) PipeReader.start schedule =
      some final) (blocked : final.Blocked) :
    final.reader.held = [] ↔ poller = .kqueue ∨ chunkSize ∣ storedBytes schedule := by
  have piped : Piped poller chunkSize schedule final :=
    Schedules.run_history_invariant (fun _ _ _ _ => step_piped positive)
      (start_piped poller chunkSize) completed
  cases poller with
  | kqueue =>
    simp only [true_or, iff_true]
    cases blocked with
    | inl waiting => exact stands_at piped.accounted waiting
    | inr reading =>
      obtain ⟨standing, _, _, blocking⟩ := reading
      cases piped.mode rfl with
      | inl idle => simp [Reader.Idle, standing] at idle
      | inr flag => simp [flag] at blocking
  | epoll =>
    obtain ⟨_, stores⟩ := piped.stores rfl
    simp only [reduceCtorEq, false_or]
    cases blocked with
    | inl waiting =>
      have none : storedBytes schedule = 0 := stores_at stores waiting
      have empty : final.reader.held = [] := stands_at piped.accounted waiting
      simp [none, empty]
    | inr reading =>
      have part : final.reader.held.length % chunkSize = storedBytes schedule % chunkSize :=
        stores_at stores reading.1
      have room : final.reader.held.length < chunkSize :=
        reading_room positive piped.accounted reading.1
      rw [Nat.mod_eq_of_lt room] at part
      rw [← List.length_eq_zero_iff, part, Nat.dvd_iff_mod_eq_zero]

/-- With `kqueue` a first byte is flushed before the reader waits for more. -/
theorem kqueue_waits_empty :
    ∃ final, Schedules.run (PipeReader.step .kqueue 1024) PipeReader.start
        [.call (.created .ok), .call (.registered .ok), .arrive [0x61], .call (.waited .ok),
          .call (.pushed .ok), .call (.read (.data [0x61])), .call (.read .eagain),
          .call .committed] = some final ∧ final.reader.held = [] := by
  have ran : (Schedules.run (PipeReader.step .kqueue 1024) PipeReader.start
      [.call (.created .ok), .call (.registered .ok), .arrive [0x61], .call (.waited .ok),
        .call (.pushed .ok), .call (.read (.data [0x61])), .call (.read .eagain),
        .call .committed]).map (fun state => state.reader.point) = some .wait := by decide
  obtain ⟨final, completed, waiting⟩ := Option.map_eq_some_iff.mp ran
  have empty := blocked_empty_iff .kqueue (by decide) _ final completed (Or.inl waiting)
  exact ⟨final, completed, empty.mpr (Or.inl rfl)⟩

/-- With `epoll` the reader blocks inside of `read` with the first byte. -/
theorem epoll_blocks_partly :
    ∃ final, Schedules.run (PipeReader.step .epoll 1024) PipeReader.start
        [.call (.created .ok), .call (.registered .ok), .arrive [0x61], .call (.waited .ok),
          .call (.pushed .ok), .call (.read (.data [0x61]))] = some final ∧
      final.Blocked ∧ final.reader.held = [0x61] :=
  ⟨_, rfl, Or.inr ⟨rfl, rfl, rfl, rfl⟩, rfl⟩

end JPipe
