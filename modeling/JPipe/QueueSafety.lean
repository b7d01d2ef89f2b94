import JPipe.Queue
import JPipe.Channel
import Mathlib.Data.List.Basic

/-!
# What holds of the queue at any moment

The invariant ties the ring to what was committed and popped: the committed
blocks not yet popped are those between `head` and `tail`, with the contents
they were committed with. It carries the points of both parties, since the block
the producer holds is the one at `tail` and the block the consumer holds the one
at `head`.
-/

namespace JPipe

section Safety

variable {β : Type}

/-- The slot `index` places after the head. -/
def Queue.slotAt (queue : Queue β) (index : Nat) : Nat := (queue.head + index) % queue.capacity

/-- The blocks between head and tail, with their slots. -/
def Queue.pending (queue : Queue β) : List (Nat × β) :=
  (List.range queue.length).map fun index =>
    (queue.slotAt index, queue.blocks (queue.slotAt index))

/-- The ring, its history and the blocks held agree. -/
structure Consistent (queue : Queue β) : Prop where
  positive : 0 < queue.capacity
  bounded : queue.length ≤ queue.capacity
  inside : queue.head < queue.capacity
  ring : queue.tail = (queue.head + queue.length) % queue.capacity
  history : ∃ delivered, queue.committed = delivered ++ queue.pending ∧
    delivered.map Prod.snd = queue.popped
  producing : ∀ slot, queue.producer = .holding slot →
    slot = queue.tail ∧ queue.length < queue.capacity
  consuming : ∀ slot, queue.consumer = .holding slot → slot = queue.head ∧ 0 < queue.length
  reading : ∀ slot content, queue.consumer = .reading slot content →
    slot = queue.head ∧ 0 < queue.length ∧ content = queue.blocks queue.head

/-- A new queue is consistent. -/
theorem create_consistent {capacity : Nat} (positive : 0 < capacity) (policy : Policy)
    (blocks : Nat → β) : Consistent (jpQueueCreate capacity policy blocks) where
  positive := positive
  bounded := Nat.zero_le _
  inside := positive
  ring := (Nat.mod_eq_of_lt positive).symm
  history := ⟨[], rfl, rfl⟩
  producing := by simp [jpQueueCreate]
  consuming := by simp [jpQueueCreate]
  reading := by simp [jpQueueCreate]

/-- Different places of the ring are different slots. -/
theorem slot_at_injective {queue : Queue β} {first second : Nat}
    (firstInside : first < queue.capacity) (secondInside : second < queue.capacity)
    (same : queue.slotAt first = queue.slotAt second) : first = second := by
  have cancelled : first % queue.capacity = second % queue.capacity :=
    Nat.ModEq.add_left_cancel' queue.head same
  rwa [Nat.mod_eq_of_lt firstInside, Nat.mod_eq_of_lt secondInside] at cancelled

/-- The head is the first place. -/
theorem slot_at_zero {queue : Queue β} (consistent : Consistent queue) :
    queue.slotAt 0 = queue.head := Nat.mod_eq_of_lt consistent.inside

/-- A block held by the producer is not between head and tail. -/
theorem tail_not_pending {queue : Queue β} (consistent : Consistent queue)
    (room : queue.length < queue.capacity) {index : Nat} (inside : index < queue.length) :
    queue.slotAt index ≠ queue.tail := by
  intro same
  have places : index = queue.length :=
    slot_at_injective (by omega) room (same.trans consistent.ring)
  omega

/-- A step that moves nothing in the ring keeps consistency, if the points still
name the right blocks. -/
theorem points_consistent {queue next : Queue β} (consistent : Consistent queue)
    (same : next.head = queue.head ∧ next.tail = queue.tail ∧ next.capacity = queue.capacity ∧
      next.length = queue.length ∧ next.blocks = queue.blocks ∧
      next.committed = queue.committed ∧ next.popped = queue.popped)
    (producing : ∀ slot, next.producer = .holding slot →
      slot = queue.tail ∧ queue.length < queue.capacity)
    (consuming : ∀ slot, next.consumer = .holding slot → slot = queue.head ∧ 0 < queue.length)
    (reading : ∀ slot content, next.consumer = .reading slot content →
      slot = queue.head ∧ 0 < queue.length ∧ content = queue.blocks queue.head) :
    Consistent next := by
  obtain ⟨head, tail, capacity, length, blocks, committed, popped⟩ := same
  have pending : next.pending = queue.pending := by
    simp only [Queue.pending, Queue.slotAt, head, capacity, length, blocks]
  constructor
  · rw [capacity]
    exact consistent.positive
  · rw [length, capacity]
    exact consistent.bounded
  · rw [head, capacity]
    exact consistent.inside
  · rw [tail, head, length, capacity]
    exact consistent.ring
  · rw [committed, popped, pending]
    exact consistent.history
  · rw [tail, length, capacity]
    exact producing
  · rw [head, length]
    exact consuming
  · rw [head, length, blocks]
    exact reading

/-- A signal makes nobody hold a block. -/
theorem producer_signal_holding {point : ProducerPoint} {slot : Nat}
    (holds : point.signal = .holding slot) : point = .holding slot := by
  cases point <;> simp_all [ProducerPoint.signal]

theorem consumer_signal_holding {point : ConsumerPoint β} {slot : Nat}
    (holds : point.signal = .holding slot) : point = .holding slot := by
  cases point <;> simp_all [ConsumerPoint.signal]

theorem consumer_signal_reading {point : ConsumerPoint β} {slot : Nat} {content : β}
    (holds : point.signal = .reading slot content) : point = .reading slot content := by
  cases point <;> simp_all [ConsumerPoint.signal]

/-- Moving only the producer keeps consistency, if it holds nothing or the block at
the tail of a queue with room. -/
theorem producer_consistent {queue next : Queue β} {point : ProducerPoint}
    (consistent : Consistent queue) (moved : next = { queue with producer := point })
    (holds : ∀ slot, point = .holding slot →
      slot = queue.tail ∧ queue.length < queue.capacity) : Consistent next := by
  subst moved
  exact points_consistent consistent ⟨rfl, rfl, rfl, rfl, rfl, rfl, rfl⟩ holds consistent.consuming
    consistent.reading

/-- Moving only the consumer keeps consistency, if it holds nothing or the block at
the head of a queue with a block. -/
theorem consumer_consistent {queue next : Queue β} {point : ConsumerPoint β}
    (consistent : Consistent queue) (moved : next = { queue with consumer := point })
    (holds : ∀ slot, point = .holding slot → slot = queue.head ∧ 0 < queue.length)
    (reads : ∀ slot content, point = .reading slot content →
      slot = queue.head ∧ 0 < queue.length ∧ content = queue.blocks queue.head) :
    Consistent next := by
  subst moved
  exact points_consistent consistent ⟨rfl, rfl, rfl, rfl, rfl, rfl, rfl⟩ consistent.producing holds
    reads

/-- Writing the block held by the producer leaves those between head and tail. -/
theorem fill_consistent {queue next : Queue β} {content : β} (consistent : Consistent queue)
    (taken : fill queue content = some next) : Consistent next := by
  obtain ⟨slot, point, rfl⟩ := fill_cases taken
  obtain ⟨rfl, room⟩ := consistent.producing slot point
  have untouched (index : Nat) (inside : index < queue.length) :
      Function.update queue.blocks queue.tail content (queue.slotAt index) =
        queue.blocks (queue.slotAt index) := by
    apply Function.update_of_ne
    exact tail_not_pending consistent room inside
  refine { consistent with history := ?_, reading := ?_ }
  · obtain ⟨delivered, split, popped⟩ := consistent.history
    refine ⟨delivered, ?_, popped⟩
    change queue.committed = _
    rw [split, List.append_cancel_left_eq]
    apply List.map_congr_left
    intro index member
    exact congrArg _ (untouched index (List.mem_range.mp member)).symm
  · intro slot seen reads
    obtain ⟨same, some, read⟩ := consistent.reading slot seen reads
    refine ⟨same, some, ?_⟩
    have head := untouched 0 some
    rw [slot_at_zero consistent] at head
    exact read.trans head.symm

/-- A commit of the producer appends the block at the tail to those between head
and tail. -/
theorem push_commit_consistent {queue next : Queue β} (consistent : Consistent queue)
    (taken : jpQueuePushCommit queue = some next) : Consistent next := by
  obtain ⟨slot, point, rfl⟩ := push_commit_cases taken
  obtain ⟨_, room⟩ := consistent.producing slot point
  obtain ⟨delivered, split, popped⟩ := consistent.history
  refine { consistent with
    bounded := room, ring := ?_, history := ?_, producing := ?_, consuming := ?_, reading := ?_ }
  · change (queue.tail + 1) % queue.capacity = (queue.head + (queue.length + 1)) % queue.capacity
    rw [consistent.ring, Nat.mod_add_mod, Nat.add_assoc]
  · refine ⟨delivered, ?_, popped⟩
    change queue.committed ++ _ = _
    rw [split, List.append_assoc, List.append_cancel_left_eq]
    simp only [Queue.pending, List.range_succ, List.map_append, List.map_cons, List.map_nil]
    rw [consistent.ring]
    rfl
  · intro other holds
    simp at holds
  · intro other holds
    obtain ⟨same, some⟩ := consistent.consuming other (consumer_signal_holding holds)
    exact ⟨same, Nat.succ_pos _⟩
  · intro other seen reads
    obtain ⟨same, some, read⟩ := consistent.reading other seen (consumer_signal_reading reads)
    exact ⟨same, Nat.succ_pos _, read⟩

/-- A commit of the consumer delivers the block at the head. -/
theorem pop_commit_consistent {queue next : Queue β} (consistent : Consistent queue)
    (taken : jpQueuePopCommit queue = some next) : Consistent next := by
  obtain ⟨slot, content, point, rfl⟩ := pop_commit_cases taken
  obtain ⟨_, some, read⟩ := consistent.reading slot content point
  obtain ⟨delivered, split, popped⟩ := consistent.history
  obtain ⟨length, counted⟩ : ∃ length, queue.length = length + 1 := ⟨queue.length - 1, by omega⟩
  have shifted (index : Nat) :
      ((queue.head + 1) % queue.capacity + index) % queue.capacity = queue.slotAt (index + 1) := by
    rw [Nat.mod_add_mod, Nat.add_assoc, Nat.add_comm 1 index]
    rfl
  refine { consistent with
    bounded := ?_, inside := Nat.mod_lt _ consistent.positive, ring := ?_, history := ?_
    producing := ?_, consuming := ?_, reading := ?_ }
  · have bounded := consistent.bounded
    change queue.length - 1 ≤ queue.capacity
    omega
  · change queue.tail = ((queue.head + 1) % queue.capacity + (queue.length - 1)) % queue.capacity
    rw [shifted, counted, Nat.add_sub_cancel, ← counted]
    exact consistent.ring
  · refine ⟨delivered ++ [(queue.head, content)], ?_, ?_⟩
    · change queue.committed = _
      rw [split, List.append_assoc, List.append_cancel_left_eq]
      simp only [Queue.pending, Queue.slotAt, counted, Nat.add_sub_cancel, List.range_succ_eq_map,
        List.map_cons, List.map_map, List.singleton_append, Nat.add_zero,
        Nat.mod_eq_of_lt consistent.inside, read]
      congr 1
      apply List.map_congr_left
      intro index _
      simp only [Function.comp_apply]
      rw [shifted]
      rfl
    · rw [List.map_append, popped]
      rfl
  · intro other holds
    obtain ⟨same, room⟩ := consistent.producing other (producer_signal_holding holds)
    refine ⟨same, ?_⟩
    change queue.length - 1 < queue.capacity
    omega
  · intro other holds
    simp at holds
  · intro other seen reads
    simp at reads

/-- Every step keeps the queue consistent. -/
theorem step_consistent {queue next : Queue β} {label : QueueLabel β}
    (consistent : Consistent queue) (taken : queue.step label = some next) : Consistent next := by
  cases label with
  | pushLoadActive =>
    obtain ⟨_, ⟨_, moved⟩ | ⟨_, moved⟩⟩ := push_load_active_cases taken <;>
      exact producer_consistent consistent moved (by simp)
  | pushLoadLength =>
    obtain ⟨_, ⟨room, moved⟩ | ⟨_, moved⟩⟩ := push_load_length_cases taken
    · exact producer_consistent consistent moved (by simp [room])
    · exact producer_consistent consistent moved (by simp)
  | pushLocked =>
    obtain ⟨_, ⟨_, _, _, moved⟩ | ⟨_, moved⟩ | ⟨_, _, _, moved⟩ | ⟨_, room, moved⟩⟩ :=
      push_locked_cases taken
    · exact producer_consistent consistent moved (by simp)
    · exact producer_consistent consistent moved (by simp)
    · exact producer_consistent consistent moved (by simp)
    · exact producer_consistent consistent moved (by simp [room])
  | wakeProducer =>
    obtain ⟨_, moved⟩ := wake_producer_cases taken
    exact producer_consistent consistent moved (by simp)
  | fill content => exact fill_consistent consistent taken
  | pushCommit => exact push_commit_consistent consistent taken
  | popLoadLength =>
    obtain ⟨_, ⟨some, moved⟩ | ⟨_, moved⟩⟩ := pop_load_length_cases taken
    · exact consumer_consistent consistent moved (by simp [some]) (by simp)
    · exact consumer_consistent consistent moved (by simp) (by simp)
  | popLocked =>
    obtain ⟨_, ⟨_, _, moved⟩ | ⟨_, _, moved⟩ | ⟨some, moved⟩⟩ := pop_locked_cases taken
    · exact consumer_consistent consistent moved (by simp) (by simp)
    · exact consumer_consistent consistent moved (by simp) (by simp)
    · exact consumer_consistent consistent moved (by simp [some]) (by simp)
  | wakeConsumer =>
    obtain ⟨_, moved⟩ := wake_consumer_cases taken
    exact consumer_consistent consistent moved (by simp) (by simp)
  | popRead =>
    obtain ⟨slot, point, moved⟩ := pop_read_cases taken
    obtain ⟨same, some⟩ := consistent.consuming slot point
    exact consumer_consistent consistent moved (by simp) (by simp [same, some])
  | popCommit => exact pop_commit_consistent consistent taken
  | finalizeLoad =>
    obtain ⟨_, moved⟩ | ⟨_, moved⟩ := finalize_load_cases taken
    · subst moved
      exact { consistent with }
    · exact moved ▸ consistent
  | finalizeLocked =>
    obtain ⟨_, moved⟩ := finalize_locked_cases taken
    subst moved
    refine points_consistent consistent ⟨rfl, rfl, rfl, rfl, rfl, rfl, rfl⟩ ?_ ?_ ?_
    · intro slot holds
      exact consistent.producing slot (producer_signal_holding holds)
    · intro slot holds
      exact consistent.consuming slot (consumer_signal_holding holds)
    · intro slot content reads
      exact consistent.reading slot content (consumer_signal_reading reads)

/-- What was committed and popped, as the history of a channel. -/
def Queue.channel (queue : Queue β) : Channel.History β where
  sent := queue.committed.map Prod.snd
  received := queue.popped

/-- The block at the head is the next one to receive. -/
theorem next_received {queue : Queue β} (consistent : Consistent queue)
    (filled : 0 < queue.length) :
    queue.channel.sent[queue.channel.received.length]? = some (queue.blocks queue.head) := by
  obtain ⟨delivered, split, popped⟩ := consistent.history
  obtain ⟨length, counted⟩ : ∃ length, queue.length = length + 1 := ⟨queue.length - 1, by omega⟩
  have first : (queue.pending.map Prod.snd)[0]? = some (queue.blocks queue.head) := by
    simp [Queue.pending, counted, slot_at_zero consistent]
  change (queue.committed.map Prod.snd)[queue.popped.length]? = _
  rw [split, List.map_append, ← popped, List.getElem?_append_right (Nat.le_refl _), Nat.sub_self,
    first]

/-- A step that is no commit leaves the history as it is. -/
theorem step_history {queue next : Queue β} {label : QueueLabel β}
    (taken : queue.step label = some next) (noPush : label ≠ .pushCommit)
    (noPop : label ≠ .popCommit) :
    next.committed = queue.committed ∧ next.popped = queue.popped := by
  cases label with
  | pushLoadActive | pushLoadLength | pushLocked | wakeProducer =>
    obtain ⟨point, rfl⟩ := push_moves rfl taken
    exact ⟨rfl, rfl⟩
  | fill content =>
    obtain ⟨slot, _, rfl⟩ := fill_cases taken
    exact ⟨rfl, rfl⟩
  | pushCommit => exact absurd rfl noPush
  | popLoadLength | popLocked | wakeConsumer | popRead =>
    obtain ⟨point, rfl⟩ := pop_moves rfl noPop taken
    exact ⟨rfl, rfl⟩
  | popCommit => exact absurd rfl noPop
  | finalizeLoad =>
    obtain ⟨unseen, _, popped⟩ := finalize_load_unseen taken
    exact ⟨unseen.committed, popped⟩
  | finalizeLocked =>
    obtain ⟨unseen, _, popped⟩ := finalize_locked_unseen taken
    exact ⟨unseen.committed, popped⟩

/-- Only the consumer pops. -/
theorem popped_kept {queue next : Queue β} {label : QueueLabel β} (outside : label.inPop = false)
    (taken : queue.step label = some next) : next.popped = queue.popped := by
  have noPop : label ≠ .popCommit := by
    rintro rfl
    simp [QueueLabel.inPop] at outside
  by_cases push : label = .pushCommit
  · subst push
    obtain ⟨slot, _, rfl⟩ := push_commit_cases taken
    rfl
  · exact (step_history taken push noPop).2

/-- What was committed stays committed. -/
theorem committed_grows {queue next : Queue β} {label : QueueLabel β}
    (taken : queue.step label = some next) : queue.committed <+: next.committed := by
  by_cases push : label = .pushCommit
  · subst push
    obtain ⟨slot, _, rfl⟩ := push_commit_cases taken
    exact List.prefix_append _ _
  · by_cases pop : label = .popCommit
    · subst pop
      obtain ⟨slot, content, _, rfl⟩ := pop_commit_cases taken
      exact List.prefix_rfl
    · rw [(step_history taken push pop).1]

/-- No step changes the policy. -/
theorem step_policy {queue next : Queue β} {label : QueueLabel β} {policy : Policy}
    (same : queue.policy = policy) (taken : queue.step label = some next) :
    next.policy = policy := by
  cases label with
  | pushLoadActive | pushLoadLength | pushLocked | wakeProducer =>
    obtain ⟨point, rfl⟩ := push_moves rfl taken
    exact same
  | fill content =>
    obtain ⟨slot, _, rfl⟩ := fill_cases taken
    exact same
  | pushCommit =>
    obtain ⟨slot, _, rfl⟩ := push_commit_cases taken
    exact same
  | popLoadLength | popLocked | wakeConsumer | popRead | popCommit =>
    exact (pop_unseen rfl taken).1.policy.trans same
  | finalizeLoad => exact (finalize_load_unseen taken).1.policy.trans same
  | finalizeLocked => exact (finalize_locked_unseen taken).1.policy.trans same

/-- A finalized queue stays finalized. -/
theorem finalized_stays {queue next : Queue β} {label : QueueLabel β}
    (inactive : queue.active = false) (taken : queue.step label = some next) :
    next.active = false := by
  cases label with
  | pushLoadActive | pushLoadLength | pushLocked | wakeProducer =>
    obtain ⟨point, rfl⟩ := push_moves rfl taken
    exact inactive
  | fill content =>
    obtain ⟨slot, _, rfl⟩ := fill_cases taken
    exact inactive
  | pushCommit =>
    obtain ⟨slot, _, rfl⟩ := push_commit_cases taken
    exact inactive
  | popLoadLength | popLocked | wakeConsumer | popRead | popCommit =>
    exact (pop_unseen rfl taken).1.finalized inactive
  | finalizeLoad => exact (finalize_load_unseen taken).1.finalized inactive
  | finalizeLocked => exact (finalize_locked_unseen taken).2.1

/-- Every step of the queue is a commit that sends, a commit that receives, or no
step of the channel at all. -/
theorem step_simulates {queue next : Queue β} {label : QueueLabel β} (consistent : Consistent queue)
    (taken : queue.step label = some next) :
    ∃ schedule, Schedules.run Channel.step queue.channel schedule = some next.channel := by
  by_cases push : label = .pushCommit
  · subst push
    obtain ⟨slot, _, rfl⟩ := push_commit_cases taken
    refine ⟨[.send (queue.blocks queue.tail)], ?_⟩
    simp [Schedules.run, Channel.step, Queue.channel]
  · by_cases pop : label = .popCommit
    · subst pop
      obtain ⟨slot, content, point, rfl⟩ := pop_commit_cases taken
      obtain ⟨_, filled, read⟩ := consistent.reading slot content point
      refine ⟨[.receive], ?_⟩
      simp only [Schedules.run, Channel.step, next_received consistent filled, Option.map_some,
        Option.bind_some, read]
      rfl
    · obtain ⟨committed, popped⟩ := step_history taken push pop
      refine ⟨[], ?_⟩
      rw [Schedules.run_nil, Queue.channel, Queue.channel, committed, popped]

/-- Every run of the queue is a run of the channel. -/
theorem queue_refines_channel {queue final : Queue β} {schedule : List (QueueLabel β)}
    (consistent : Consistent queue)
    (completed : Schedules.run Queue.step queue schedule = some final) :
    ∃ history, Schedules.run Channel.step queue.channel history = some final.channel :=
  Schedules.run_projects Queue.channel (fun _ _ _ => step_consistent) (fun _ _ _ => step_simulates)
    consistent completed

/-- The slot the consumer reads from, after `jp_queue_pop_uncommitted` and before
`jp_queue_pop_commit`. -/
def ConsumerPoint.slot : ConsumerPoint β → Option Nat
  | .holding slot => some slot
  | .reading slot _ => some slot
  | _ => none

/-- What the users of the queue rely on at any moment. -/
structure Safe (queue : Queue β) : Prop where
  bounded : queue.length ≤ queue.capacity
  ring : queue.tail = (queue.head + queue.length) % queue.capacity
  fifo : queue.popped <+: queue.committed.map Prod.snd
  apart : ∀ filled read, queue.producer = .holding filled → queue.consumer.slot = some read →
    filled ≠ read
  unreused : ∀ slot, queue.producer = .holding slot →
    slot ∉ (queue.committed.drop queue.popped.length).map Prod.fst
  complete : ∀ label next, queue.step label = some next →
    next.consumer = .outside .eshuttingDown → queue.consumer ≠ .outside .eshuttingDown →
    queue.popped = queue.committed.map Prod.snd

/-- The blocks committed and not popped are those between head and tail. -/
theorem unpopped_pending {queue : Queue β} (consistent : Consistent queue) :
    queue.committed.drop queue.popped.length = queue.pending := by
  obtain ⟨delivered, split, popped⟩ := consistent.history
  rw [split, ← popped, List.length_map, List.drop_left]

/-- With nothing between head and tail everything committed was popped. -/
theorem empty_popped {queue : Queue β} (consistent : Consistent queue) (empty : queue.length = 0) :
    queue.popped = queue.committed.map Prod.snd := by
  obtain ⟨delivered, split, popped⟩ := consistent.history
  rw [split, Queue.pending, empty, List.range_zero, List.map_nil, List.append_nil, popped]

/-- With everything committed popped, nothing is between head and tail. -/
theorem popped_empty {queue : Queue β} (consistent : Consistent queue)
    (used : queue.popped = queue.committed.map Prod.snd) : queue.length = 0 := by
  have counted : queue.pending.length = 0 := by
    rw [← unpopped_pending consistent, used, List.length_map, List.drop_length, List.length_nil]
  simpa [Queue.pending] using counted

/-- A consumer is answered that the queue is finalized under the lock, where it found
it empty and inactive. -/
theorem pop_answered {queue next : Queue β} {label : QueueLabel β} (inside : label.inPop = true)
    (taken : queue.step label = some next) (answered : next.consumer = .outside .eshuttingDown) :
    label = .popLocked ∧ queue.length = 0 ∧ queue.active = false := by
  cases label with
  | popLoadLength =>
    obtain ⟨_, ⟨_, rfl⟩ | ⟨_, rfl⟩⟩ := pop_load_length_cases taken <;> simp at answered
  | popLocked =>
    obtain ⟨_, ⟨_, _, rfl⟩ | ⟨empty, inactive, _⟩ | ⟨_, rfl⟩⟩ := pop_locked_cases taken
    · simp at answered
    · exact ⟨rfl, empty, inactive⟩
    · simp at answered
  | wakeConsumer =>
    obtain ⟨_, rfl⟩ := wake_consumer_cases taken
    simp at answered
  | popRead =>
    obtain ⟨slot, _, rfl⟩ := pop_read_cases taken
    simp at answered
  | popCommit =>
    obtain ⟨slot, content, _, rfl⟩ := pop_commit_cases taken
    simp at answered
  | _ => simp [QueueLabel.inPop] at inside

/-- The steps of the others at most signal the consumer. -/
theorem consumer_signalled {queue next : Queue β} {label : QueueLabel β}
    (outside : label.inPop = false) (taken : queue.step label = some next) :
    next.consumer = queue.consumer ∨ next.consumer = queue.consumer.signal := by
  cases label with
  | fill content =>
    obtain ⟨slot, _, rfl⟩ := fill_cases taken
    exact Or.inl rfl
  | pushCommit =>
    obtain ⟨slot, _, rfl⟩ := push_commit_cases taken
    exact Or.inr rfl
  | finalizeLoad =>
    obtain ⟨_, rfl⟩ | ⟨_, rfl⟩ := finalize_load_cases taken <;> exact Or.inl rfl
  | finalizeLocked =>
    obtain ⟨_, rfl⟩ := finalize_locked_cases taken
    exact Or.inr rfl
  | pushLoadActive | pushLoadLength | pushLocked | wakeProducer =>
    obtain ⟨point, rfl⟩ := push_moves rfl taken
    exact Or.inl rfl
  | _ => simp [QueueLabel.inPop] at outside

/-- Where a step of any thread leaves the consumer answered with `JP_ESHUTTING_DOWN`, and
it was not before, the step is its section under the lock on a finalized queue without
blocks. -/
theorem shutdown_answered {queue next : Queue β} {label : QueueLabel β}
    (taken : queue.step label = some next) (answered : next.consumer = .outside .eshuttingDown)
    (before : queue.consumer ≠ .outside .eshuttingDown) :
    label = .popLocked ∧ queue.length = 0 ∧ queue.active = false := by
  cases inside : label.inPop with
  | true => exact pop_answered inside taken answered
  | false =>
    cases consumer_signalled inside taken with
    | inl same => exact absurd (same.symm.trans answered) before
    | inr woken =>
      rw [woken] at answered
      cases point : queue.consumer <;> simp_all [ConsumerPoint.signal]

/-- The block the consumer reads is the one at the head. -/
theorem consumer_slot {queue : Queue β} (consistent : Consistent queue) {slot : Nat}
    (reads : queue.consumer.slot = some slot) : slot = queue.head ∧ 0 < queue.length := by
  cases point : queue.consumer with
  | holding other =>
    obtain ⟨rfl, filled⟩ := consistent.consuming other point
    rw [point] at reads
    exact ⟨(Option.some.inj reads).symm, filled⟩
  | reading other content =>
    obtain ⟨rfl, filled, _⟩ := consistent.reading other content point
    rw [point] at reads
    exact ⟨(Option.some.inj reads).symm, filled⟩
  | _ => simp [point, ConsumerPoint.slot] at reads

/-- Along every interleaving of one producer, one consumer and any calls of
`jp_queue_finalize` the queue is safe. -/
theorem queue_safe {capacity : Nat} (positive : 0 < capacity) (policy : Policy)
    (blocks : Nat → β) (schedule : List (QueueLabel β)) (final : Queue β)
    (completed : Schedules.run Queue.step (jpQueueCreate capacity policy blocks) schedule =
      some final) : Safe final := by
  have start := create_consistent positive policy blocks
  have consistent : Consistent final :=
    Schedules.run_invariant (fun _ _ _ => step_consistent) start completed
  have initial : (jpQueueCreate capacity policy blocks).channel.received <+:
      (jpQueueCreate capacity policy blocks).channel.sent := List.prefix_rfl
  obtain ⟨history, channel⟩ := queue_refines_channel start completed
  constructor
  · exact consistent.bounded
  · exact consistent.ring
  · exact Channel.run_prefix initial channel
  · intro filled read holds reads same
    obtain ⟨rfl, room⟩ := consistent.producing filled holds
    obtain ⟨rfl, some⟩ := consumer_slot consistent reads
    apply tail_not_pending consistent room some
    rw [slot_at_zero consistent, same]
  · intro slot holds member
    obtain ⟨rfl, room⟩ := consistent.producing slot holds
    rw [unpopped_pending consistent, Queue.pending, List.map_map] at member
    obtain ⟨index, inside, same⟩ := List.mem_map.mp member
    exact tail_not_pending consistent room (List.mem_range.mp inside) same
  · intro label next taken answered before
    obtain ⟨_, empty, _⟩ := shutdown_answered taken answered before
    exact empty_popped consistent empty

/-- One block through a ring of capacity one, finalized after the commit. -/
theorem single_slot_safe :
    ∃ final, Schedules.run Queue.step (jpQueueCreate 1 .wait (fun _ => 0))
        [.pushLoadActive, .pushLoadLength, .fill 7, .pushCommit, .finalizeLoad, .popLoadLength,
          .finalizeLocked, .popRead, .popCommit, .popLoadLength, .popLocked] = some final ∧
      final.popped = [7] ∧ Safe final := by
  have ran : (Schedules.run Queue.step (jpQueueCreate 1 .wait (fun _ => 0))
      [.pushLoadActive, .pushLoadLength, .fill 7, .pushCommit, .finalizeLoad, .popLoadLength,
        .finalizeLocked, .popRead, .popCommit, .popLoadLength, .popLocked]).map Queue.popped =
      some [7] := by decide
  obtain ⟨final, completed, popped⟩ := Option.map_eq_some_iff.mp ran
  exact ⟨final, completed, popped, queue_safe Nat.one_pos .wait (fun _ => 0) _ final completed⟩

end Safety

end JPipe
