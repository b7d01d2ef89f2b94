import JPipe.Schedules
import JPipe.Errno
import Mathlib.Logic.Function.Basic

/-!
# The block queue

One producer and one consumer share a ring of blocks. Each atomic load and each
section under the lock is one step, and so is falling asleep on a condition and
waking up, with or without a signal. A call of `jp_queue_push_uncommitted` or
`jp_queue_pop_uncommitted` is therefore several steps, and the two parties stand
at points inside of it; any number of threads may be inside `jp_queue_finalize`.

The contents of the blocks are a parameter. Beside the fields of `jp_queue_t`
the state keeps what has happened: the contents committed, each with its slot,
and the contents popped.
-/

namespace JPipe

/-- `jp_queue_policy_t`. -/
inductive Policy where
  | wait
  | drop
deriving DecidableEq, Repr

/-- Where the producer stands. Outside of a call it knows the last answer of
`jp_queue_push_uncommitted`; `loadLength` and `lock` are inside of it, past the
load of `active` and past the load of `length`. -/
inductive ProducerPoint where
  | outside (answer : Errno)
  | loadLength
  | lock
  | asleep (woken : Bool)
  | holding (slot : Nat)
deriving DecidableEq, Repr

/-- Where the consumer stands. After `jp_queue_pop_uncommitted` it holds a block,
and later the content it read from it. -/
inductive ConsumerPoint (β : Type) where
  | outside (answer : Errno)
  | lock
  | asleep (woken : Bool)
  | holding (slot : Nat)
  | reading (slot : Nat) (content : β)
deriving DecidableEq, Repr

/-- `jp_queue_t` with the points of its two users, the number of calls inside
`jp_queue_finalize` and what was committed and popped so far. -/
structure Queue (β : Type) where
  head : Nat
  tail : Nat
  capacity : Nat
  length : Nat
  active : Bool
  policy : Policy
  blocks : Nat → β
  producer : ProducerPoint
  consumer : ConsumerPoint β
  finalizing : Nat
  committed : List (Nat × β)
  popped : List β

/-- The steps of the producer, of the consumer and of any caller of
`jp_queue_finalize`. -/
inductive QueueLabel (β : Type) where
  | pushLoadActive
  | pushLoadLength
  | pushLocked
  | wakeProducer
  | fill (content : β)
  | pushCommit
  | popLoadLength
  | popLocked
  | wakeConsumer
  | popRead
  | popCommit
  | finalizeLoad
  | finalizeLocked
deriving DecidableEq, Repr

section Steps

variable {β : Type}

/-- The steps inside of `jp_queue_push_uncommitted`. -/
def QueueLabel.inPush : QueueLabel β → Bool
  | .pushLoadActive | .pushLoadLength | .pushLocked | .wakeProducer => true
  | _ => false

/-- The steps of the consumer, from the call of `jp_queue_pop_uncommitted` to
`jp_queue_pop_commit`. -/
def QueueLabel.inPop : QueueLabel β → Bool
  | .popLoadLength | .popLocked | .wakeConsumer | .popRead | .popCommit => true
  | _ => false

/-- `jp_queue_create`. -/
def jpQueueCreate (capacity : Nat) (policy : Policy) (blocks : Nat → β) : Queue β where
  head := 0
  tail := 0
  capacity := capacity
  length := 0
  active := true
  policy := policy
  blocks := blocks
  producer := .outside .ok
  consumer := .outside .ok
  finalizing := 0
  committed := []
  popped := []

/-- A signal wakes a sleeper and is lost on anyone else. -/
def ProducerPoint.signal : ProducerPoint → ProducerPoint
  | .asleep _ => .asleep true
  | point => point

/-- A signal wakes a sleeping consumer and is lost on one that stands anywhere else. -/
def ConsumerPoint.signal : ConsumerPoint β → ConsumerPoint β
  | .asleep _ => .asleep true
  | point => point

/-- The producer is about to run the section of `jp_queue_push_uncommitted` under
the lock, for the first time or again after `pthread_cond_wait`. -/
def ProducerPoint.entering : ProducerPoint → Bool
  | .lock => true
  | .asleep woken => woken
  | _ => false

/-- The consumer is about to run the section of `jp_queue_pop_uncommitted` under the lock,
for the first time or again after `pthread_cond_wait`. -/
def ConsumerPoint.entering : ConsumerPoint β → Bool
  | .lock => true
  | .asleep woken => woken
  | _ => false

/-- `jp_queue_push_uncommitted`: the load of `active`. -/
def pushLoadActive (queue : Queue β) : Option (Queue β) :=
  match queue.producer with
  | .outside _ =>
    some { queue with
      producer := if queue.active then .loadLength else .outside .eshuttingDown }
  | _ => none

/-- `jp_queue_push_uncommitted`: the load of `length` without the lock. -/
def pushLoadLength (queue : Queue β) : Option (Queue β) :=
  match queue.producer with
  | .loadLength =>
    some { queue with
      producer := if queue.length < queue.capacity then .holding queue.tail else .lock }
  | _ => none

/-- `jp_queue_push_uncommitted`: the section under the lock, up to its end or to
`pthread_cond_wait`. -/
def pushLocked (queue : Queue β) : Option (Queue β) :=
  if queue.producer.entering then
    some { queue with
      producer :=
        if queue.policy = .wait ∧ queue.active ∧ queue.length ≥ queue.capacity then .asleep false
        else if !queue.active then .outside .eshuttingDown
        else if queue.policy = .drop ∧ queue.length ≥ queue.capacity then .outside .emsgShouldDrop
        else .holding queue.tail }
  else none

/-- A sleeping producer may wake up without a signal. -/
def wakeProducer (queue : Queue β) : Option (Queue β) :=
  match queue.producer with
  | .asleep false => some { queue with producer := .asleep true }
  | _ => none

/-- The producer writes to the block it holds. -/
def fill (queue : Queue β) (content : β) : Option (Queue β) :=
  match queue.producer with
  | .holding slot => some { queue with blocks := Function.update queue.blocks slot content }
  | _ => none

/-- `jp_queue_push_commit`. -/
def jpQueuePushCommit (queue : Queue β) : Option (Queue β) :=
  match queue.producer with
  | .holding _ =>
    some { queue with
      tail := (queue.tail + 1) % queue.capacity
      length := queue.length + 1
      producer := .outside .ok
      consumer := queue.consumer.signal
      committed := queue.committed ++ [(queue.tail, queue.blocks queue.tail)] }
  | _ => none

/-- `jp_queue_pop_uncommitted`: the load of `length` without the lock. -/
def popLoadLength (queue : Queue β) : Option (Queue β) :=
  match queue.consumer with
  | .outside _ =>
    some { queue with consumer := if queue.length > 0 then .holding queue.head else .lock }
  | _ => none

/-- `jp_queue_pop_uncommitted`: the section under the lock, up to its end or to
`pthread_cond_wait`. -/
def popLocked (queue : Queue β) : Option (Queue β) :=
  if queue.consumer.entering then
    some { queue with
      consumer :=
        if queue.length = 0 ∧ queue.active then .asleep false
        else if queue.length = 0 ∧ !queue.active then .outside .eshuttingDown
        else .holding queue.head }
  else none

/-- A sleeping consumer may wake up without a signal. -/
def wakeConsumer (queue : Queue β) : Option (Queue β) :=
  match queue.consumer with
  | .asleep false => some { queue with consumer := .asleep true }
  | _ => none

/-- The consumer reads the block it holds. -/
def popRead (queue : Queue β) : Option (Queue β) :=
  match queue.consumer with
  | .holding slot => some { queue with consumer := .reading slot (queue.blocks slot) }
  | _ => none

/-- `jp_queue_pop_commit`. -/
def jpQueuePopCommit (queue : Queue β) : Option (Queue β) :=
  match queue.consumer with
  | .reading _ content =>
    some { queue with
      head := (queue.head + 1) % queue.capacity
      length := queue.length - 1
      consumer := .outside .ok
      producer := queue.producer.signal
      popped := queue.popped ++ [content] }
  | _ => none

/-- `jp_queue_finalize`: the load of `active`; a call that finds the queue
finalized returns. -/
def finalizeLoad (queue : Queue β) : Option (Queue β) :=
  some { queue with
    finalizing := if queue.active then queue.finalizing + 1 else queue.finalizing }

/-- `jp_queue_finalize`: the section under the lock. -/
def finalizeLocked (queue : Queue β) : Option (Queue β) :=
  if queue.finalizing > 0 then
    some { queue with
      active := false
      producer := queue.producer.signal
      consumer := queue.consumer.signal
      finalizing := queue.finalizing - 1 }
  else none

/-- One step of the queue. -/
def Queue.step (queue : Queue β) : QueueLabel β → Option (Queue β)
  | .pushLoadActive => pushLoadActive queue
  | .pushLoadLength => pushLoadLength queue
  | .pushLocked => pushLocked queue
  | .wakeProducer => wakeProducer queue
  | .fill content => fill queue content
  | .pushCommit => jpQueuePushCommit queue
  | .popLoadLength => popLoadLength queue
  | .popLocked => popLocked queue
  | .wakeConsumer => wakeConsumer queue
  | .popRead => popRead queue
  | .popCommit => jpQueuePopCommit queue
  | .finalizeLoad => finalizeLoad queue
  | .finalizeLocked => finalizeLocked queue

/-! ### What one step can do -/

/-- The load of `active` goes on when the queue is active and answers otherwise. -/
theorem push_load_active_cases {queue next : Queue β} (taken : pushLoadActive queue = some next) :
    (∃ answer, queue.producer = .outside answer) ∧
      ((queue.active = true ∧ next = { queue with producer := .loadLength }) ∨
        (queue.active = false ∧ next = { queue with producer := .outside .eshuttingDown })) := by
  unfold pushLoadActive at taken
  cases point : queue.producer with
  | outside answer =>
    cases active : queue.active <;> simp [point, active] at taken <;> simp [← taken]
  | _ => simp [point] at taken

/-- The load of `length` hands out the block at the tail when there is room. -/
theorem push_load_length_cases {queue next : Queue β} (taken : pushLoadLength queue = some next) :
    queue.producer = .loadLength ∧
      ((queue.length < queue.capacity ∧ next = { queue with producer := .holding queue.tail }) ∨
        (queue.capacity ≤ queue.length ∧ next = { queue with producer := .lock })) := by
  unfold pushLoadLength at taken
  cases point : queue.producer with
  | loadLength =>
    by_cases room : queue.length < queue.capacity
    · simp [point, room] at taken
      simp [← taken, room]
    · simp [point, room] at taken
      simp [← taken, Nat.not_lt.mp room]
  | _ => simp [point] at taken

/-- The section under the lock sleeps, answers, or hands out the block at the tail
of an active queue with room. -/
theorem push_locked_cases {queue next : Queue β} (taken : pushLocked queue = some next) :
    queue.producer.entering = true ∧
      ((queue.policy = .wait ∧ queue.active = true ∧ queue.capacity ≤ queue.length ∧
          next = { queue with producer := .asleep false }) ∨
        (queue.active = false ∧ next = { queue with producer := .outside .eshuttingDown }) ∨
        (queue.policy = .drop ∧ queue.active = true ∧ queue.capacity ≤ queue.length ∧
          next = { queue with producer := .outside .emsgShouldDrop }) ∨
        (queue.active = true ∧ queue.length < queue.capacity ∧
          next = { queue with producer := .holding queue.tail })) := by
  unfold pushLocked at taken
  split at taken
  · rename_i entering
    refine ⟨entering, ?_⟩
    obtain rfl := Option.some.inj taken
    by_cases room : queue.length < queue.capacity
    · cases active : queue.active <;> simp [room, Nat.not_le.mpr room]
    · cases active : queue.active <;> cases policy : queue.policy <;>
        simp [room, Nat.not_lt.mp room]
  · simp at taken

/-- Only a sleeper wakes up by itself. -/
theorem wake_producer_cases {queue next : Queue β} (taken : wakeProducer queue = some next) :
    queue.producer = .asleep false ∧ next = { queue with producer := .asleep true } := by
  unfold wakeProducer at taken
  split at taken
  · rename_i point
    exact ⟨point, (Option.some.inj taken).symm⟩
  · simp at taken

/-- Only a block held is written. -/
theorem fill_cases {queue next : Queue β} {content : β} (taken : fill queue content = some next) :
    ∃ slot, queue.producer = .holding slot ∧
      next = { queue with blocks := Function.update queue.blocks slot content } := by
  unfold fill at taken
  split at taken
  · rename_i slot point
    exact ⟨slot, point, (Option.some.inj taken).symm⟩
  · simp at taken

/-- A commit makes the block at the tail part of the queue. -/
theorem push_commit_cases {queue next : Queue β} (taken : jpQueuePushCommit queue = some next) :
    ∃ slot, queue.producer = .holding slot ∧
      next = { queue with
        tail := (queue.tail + 1) % queue.capacity
        length := queue.length + 1
        producer := .outside .ok
        consumer := queue.consumer.signal
        committed := queue.committed ++ [(queue.tail, queue.blocks queue.tail)] } := by
  unfold jpQueuePushCommit at taken
  split at taken
  · rename_i slot point
    exact ⟨slot, point, (Option.some.inj taken).symm⟩
  · simp at taken

/-- The load of `length` hands out the block at the head when there is one. -/
theorem pop_load_length_cases {queue next : Queue β} (taken : popLoadLength queue = some next) :
    (∃ answer, queue.consumer = .outside answer) ∧
      ((0 < queue.length ∧ next = { queue with consumer := .holding queue.head }) ∨
        (queue.length = 0 ∧ next = { queue with consumer := .lock })) := by
  unfold popLoadLength at taken
  cases point : queue.consumer with
  | outside answer =>
    by_cases some : 0 < queue.length
    · simp [point, some] at taken
      simp [← taken, some]
    · simp [point, some] at taken
      simp [← taken, Nat.eq_zero_of_not_pos some]
  | _ => simp [point] at taken

/-- The section under the lock sleeps on an active queue, answers that a finalized
one is used up, or hands out the block at the head. -/
theorem pop_locked_cases {queue next : Queue β} (taken : popLocked queue = some next) :
    queue.consumer.entering = true ∧
      ((queue.length = 0 ∧ queue.active = true ∧
          next = { queue with consumer := .asleep false }) ∨
        (queue.length = 0 ∧ queue.active = false ∧
          next = { queue with consumer := .outside .eshuttingDown }) ∨
        (0 < queue.length ∧ next = { queue with consumer := .holding queue.head })) := by
  unfold popLocked at taken
  split at taken
  · rename_i entering
    refine ⟨entering, ?_⟩
    obtain rfl := Option.some.inj taken
    by_cases none : queue.length = 0
    · cases active : queue.active <;> simp [none]
    · simp [none, Nat.pos_of_ne_zero none]
  · simp at taken

/-- Only a sleeper wakes up by itself. -/
theorem wake_consumer_cases {queue next : Queue β} (taken : wakeConsumer queue = some next) :
    queue.consumer = .asleep false ∧ next = { queue with consumer := .asleep true } := by
  unfold wakeConsumer at taken
  split at taken
  · rename_i point
    exact ⟨point, (Option.some.inj taken).symm⟩
  · simp at taken

/-- Only a block held is read. -/
theorem pop_read_cases {queue next : Queue β} (taken : popRead queue = some next) :
    ∃ slot, queue.consumer = .holding slot ∧
      next = { queue with consumer := .reading slot (queue.blocks slot) } := by
  unfold popRead at taken
  split at taken
  · rename_i slot point
    exact ⟨slot, point, (Option.some.inj taken).symm⟩
  · simp at taken

/-- A commit of the consumer frees the block at the head. -/
theorem pop_commit_cases {queue next : Queue β} (taken : jpQueuePopCommit queue = some next) :
    ∃ slot content, queue.consumer = .reading slot content ∧
      next = { queue with
        head := (queue.head + 1) % queue.capacity
        length := queue.length - 1
        consumer := .outside .ok
        producer := queue.producer.signal
        popped := queue.popped ++ [content] } := by
  unfold jpQueuePopCommit at taken
  split at taken
  · rename_i slot content point
    exact ⟨slot, content, point, (Option.some.inj taken).symm⟩
  · simp at taken

/-- The load of `active` in `jp_queue_finalize` only counts the caller. -/
theorem finalize_load_cases {queue next : Queue β} (taken : finalizeLoad queue = some next) :
    (queue.active = true ∧ next = { queue with finalizing := queue.finalizing + 1 }) ∨
      (queue.active = false ∧ next = queue) := by
  obtain rfl := Option.some.inj taken
  cases active : queue.active with
  | false => exact Or.inr ⟨rfl, by cases queue; simp_all⟩
  | true => exact Or.inl ⟨rfl, by simp⟩

/-- The section of `jp_queue_finalize` under the lock. -/
theorem finalize_locked_cases {queue next : Queue β} (taken : finalizeLocked queue = some next) :
    0 < queue.finalizing ∧
      next = { queue with
        active := false
        producer := queue.producer.signal
        consumer := queue.consumer.signal
        finalizing := queue.finalizing - 1 } := by
  unfold finalizeLocked at taken
  split at taken
  · rename_i some
    exact ⟨some, (Option.some.inj taken).symm⟩
  · simp at taken

/-! ### What the steps of one party leave alone -/

/-- The content of the block the producer holds. -/
def Queue.held (queue : Queue β) : Option β :=
  match queue.producer with
  | .holding slot => some (queue.blocks slot)
  | _ => none

/-- Inside of `jp_queue_push_uncommitted` only the producer moves. -/
theorem push_moves {queue next : Queue β} {label : QueueLabel β} (inside : label.inPush = true)
    (taken : queue.step label = some next) :
    ∃ point, next = { queue with producer := point } := by
  cases label with
  | pushLoadActive =>
    obtain ⟨_, ⟨_, moved⟩ | ⟨_, moved⟩⟩ := push_load_active_cases taken <;> exact ⟨_, moved⟩
  | pushLoadLength =>
    obtain ⟨_, ⟨_, moved⟩ | ⟨_, moved⟩⟩ := push_load_length_cases taken <;> exact ⟨_, moved⟩
  | pushLocked =>
    obtain ⟨_, ⟨_, _, _, moved⟩ | ⟨_, moved⟩ | ⟨_, _, _, moved⟩ | ⟨_, _, moved⟩⟩ :=
      push_locked_cases taken <;> exact ⟨_, moved⟩
  | wakeProducer => exact ⟨_, (wake_producer_cases taken).2⟩
  | _ => simp [QueueLabel.inPush] at inside

/-- Until its commit only the consumer moves. -/
theorem pop_moves {queue next : Queue β} {label : QueueLabel β} (inside : label.inPop = true)
    (uncommitted : label ≠ .popCommit) (taken : queue.step label = some next) :
    ∃ point, next = { queue with consumer := point } := by
  cases label with
  | popLoadLength =>
    obtain ⟨_, ⟨_, moved⟩ | ⟨_, moved⟩⟩ := pop_load_length_cases taken <;> exact ⟨_, moved⟩
  | popLocked =>
    obtain ⟨_, ⟨_, _, moved⟩ | ⟨_, _, moved⟩ | ⟨_, moved⟩⟩ := pop_locked_cases taken <;>
      exact ⟨_, moved⟩
  | wakeConsumer => exact ⟨_, (wake_consumer_cases taken).2⟩
  | popRead =>
    obtain ⟨slot, _, moved⟩ := pop_read_cases taken
    exact ⟨_, moved⟩
  | popCommit => exact absurd rfl uncommitted
  | _ => simp [QueueLabel.inPop] at inside

/-- What the producer relies on between its own steps. -/
structure Unseen (queue next : Queue β) : Prop where
  policy : next.policy = queue.policy
  committed : next.committed = queue.committed
  held : next.held = queue.held
  loading : next.producer = .loadLength ↔ queue.producer = .loadLength
  finalized : queue.active = false → next.active = false

/-- A step that at most signals the producer is not seen by it. -/
theorem signalled_unseen {queue next : Queue β}
    (same : next.policy = queue.policy ∧ next.committed = queue.committed ∧
      next.blocks = queue.blocks)
    (signal : next.producer = queue.producer ∨ next.producer = queue.producer.signal)
    (finalized : queue.active = false → next.active = false) : Unseen queue next := by
  obtain ⟨policy, committed, blocks⟩ := same
  constructor
  · exact policy
  · exact committed
  · rw [Queue.held, Queue.held, blocks]
    cases signal with
    | inl kept => rw [kept]
    | inr woken =>
      rw [woken]
      cases queue.producer <;> rfl
  · cases signal with
    | inl kept => rw [kept]
    | inr woken =>
      rw [woken]
      cases queue.producer <;> simp [ProducerPoint.signal]
  · exact finalized

/-- Nothing is seen of no step. -/
theorem unseen_refl (queue : Queue β) : Unseen queue queue :=
  signalled_unseen ⟨rfl, rfl, rfl⟩ (Or.inl rfl) id

/-- The steps of the consumer are not seen by the producer, and finalize nothing. -/
theorem pop_unseen {queue next : Queue β} {label : QueueLabel β} (inside : label.inPop = true)
    (taken : queue.step label = some next) : Unseen queue next ∧ next.active = queue.active := by
  by_cases commit : label = .popCommit
  · subst commit
    obtain ⟨slot, content, _, rfl⟩ := pop_commit_cases taken
    exact ⟨signalled_unseen ⟨rfl, rfl, rfl⟩ (Or.inr rfl) id, rfl⟩
  · obtain ⟨point, rfl⟩ := pop_moves inside commit taken
    exact ⟨signalled_unseen ⟨rfl, rfl, rfl⟩ (Or.inl rfl) id, rfl⟩

/-- The load of `active` in `jp_queue_finalize` is not seen by the producer, and
finalizes nothing. -/
theorem finalize_load_unseen {queue next : Queue β} (taken : finalizeLoad queue = some next) :
    Unseen queue next ∧ next.active = queue.active ∧ next.popped = queue.popped := by
  obtain ⟨_, rfl⟩ | ⟨_, rfl⟩ := finalize_load_cases taken <;>
    exact ⟨signalled_unseen ⟨rfl, rfl, rfl⟩ (Or.inl rfl) id, rfl, rfl⟩

/-- The section of `jp_queue_finalize` under the lock at most signals the producer. -/
theorem finalize_locked_unseen {queue next : Queue β} (taken : finalizeLocked queue = some next) :
    Unseen queue next ∧ next.active = false ∧ next.popped = queue.popped := by
  obtain ⟨_, rfl⟩ := finalize_locked_cases taken
  exact ⟨signalled_unseen ⟨rfl, rfl, rfl⟩ (Or.inr rfl) fun _ => rfl, rfl, rfl⟩

/-- A call of `jp_queue_push_uncommitted` is answered without a block only when the
queue is finalized, or is full under the dropping policy. -/
theorem push_refused {queue next : Queue β} {label : QueueLabel β} {answer : Errno}
    (inside : label.inPush = true) (taken : queue.step label = some next)
    (refused : next.producer = .outside answer) :
    answer = .eshuttingDown ∧ queue.active = false ∨
      answer = .emsgShouldDrop ∧ queue.policy = .drop := by
  cases label with
  | pushLoadActive =>
    obtain ⟨_, ⟨_, rfl⟩ | ⟨inactive, rfl⟩⟩ := push_load_active_cases taken
    · simp at refused
    · exact Or.inl ⟨(ProducerPoint.outside.inj refused).symm, inactive⟩
  | pushLoadLength =>
    obtain ⟨_, ⟨_, rfl⟩ | ⟨_, rfl⟩⟩ := push_load_length_cases taken <;> simp at refused
  | pushLocked =>
    obtain ⟨_, ⟨_, _, _, rfl⟩ | ⟨inactive, rfl⟩ | ⟨drops, _, _, rfl⟩ | ⟨_, _, rfl⟩⟩ :=
      push_locked_cases taken
    · simp at refused
    · exact Or.inl ⟨(ProducerPoint.outside.inj refused).symm, inactive⟩
    · exact Or.inr ⟨(ProducerPoint.outside.inj refused).symm, drops⟩
    · simp at refused
  | wakeProducer =>
    obtain ⟨_, rfl⟩ := wake_producer_cases taken
    simp at refused
  | _ => simp [QueueLabel.inPush] at inside

/-- Under the waiting policy it is answered so only when the queue is finalized. -/
theorem wait_refused {queue next : Queue β} {label : QueueLabel β} {answer : Errno}
    (waits : queue.policy = .wait) (inside : label.inPush = true)
    (taken : queue.step label = some next) (refused : next.producer = .outside answer) :
    answer = .eshuttingDown ∧ queue.active = false := by
  rcases push_refused inside taken refused with finalized | ⟨_, drops⟩
  · exact finalized
  · simp [waits] at drops

/-- After the finalization a call that has not passed the load of `active` gets no
block. -/
theorem finalized_unreserved {queue next : Queue β} {label : QueueLabel β}
    (inactive : queue.active = false) (unloaded : queue.producer ≠ .loadLength)
    (inside : label.inPush = true) (taken : queue.step label = some next) :
    next.producer ≠ .loadLength ∧ ∀ slot, next.producer ≠ .holding slot := by
  cases label with
  | pushLoadActive =>
    obtain ⟨_, ⟨active, _⟩ | ⟨_, rfl⟩⟩ := push_load_active_cases taken
    · simp [inactive] at active
    · simp
  | pushLoadLength => exact absurd (push_load_length_cases taken).1 unloaded
  | pushLocked =>
    obtain ⟨_, ⟨_, _, _, rfl⟩ | ⟨_, rfl⟩ | ⟨_, _, _, rfl⟩ | ⟨active, _, _⟩⟩ :=
      push_locked_cases taken
    · simp
    · simp
    · simp
    · simp [inactive] at active
  | wakeProducer =>
    obtain ⟨_, rfl⟩ := wake_producer_cases taken
    simp
  | _ => simp [QueueLabel.inPush] at inside

/-- A call past the load of `active` is handed a block of a queue with room. -/
theorem loading_reserved {queue next : Queue β} {label : QueueLabel β}
    (loading : queue.producer = .loadLength) (room : queue.length < queue.capacity)
    (inside : label.inPush = true) (taken : queue.step label = some next) :
    next.producer = .holding queue.tail := by
  cases label with
  | pushLoadActive =>
    obtain ⟨⟨_, point⟩, _⟩ := push_load_active_cases taken
    simp [point] at loading
  | pushLoadLength =>
    obtain ⟨_, ⟨_, rfl⟩ | ⟨full, _⟩⟩ := push_load_length_cases taken
    · rfl
    · exact absurd room (Nat.not_lt.mpr full)
  | pushLocked =>
    obtain ⟨entering, _⟩ := push_locked_cases taken
    simp [loading, ProducerPoint.entering] at entering
  | wakeProducer =>
    obtain ⟨point, _⟩ := wake_producer_cases taken
    simp [point] at loading
  | _ => simp [QueueLabel.inPush] at inside

end Steps

end JPipe
