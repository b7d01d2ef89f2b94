import JPipe.QueueSafety

/-!
# No lost wake-up

A party that sleeps on its condition with no wake-up pending has nothing to do:
the producer only while the queue is active and full, the consumer only while it
is active and empty. Falling asleep establishes this under the lock, and every
step that could end it signals the sleeper in the same section: a commit of the
other party, and the section of `jp_queue_finalize`. The two conditions exclude
each other, so one of the parties can always go on.
-/

namespace JPipe

section Wakeups

variable {β : Type}

/-- A sleeper without a wake-up pending has nothing to do. -/
structure Rested (queue : Queue β) : Prop where
  producer : queue.producer = .asleep false →
    queue.active = true ∧ queue.length = queue.capacity
  consumer : queue.consumer = .asleep false → queue.active = true ∧ queue.length = 0

/-- After a signal nobody sleeps without a wake-up pending. -/
theorem producer_signal_wakes (point : ProducerPoint) : point.signal ≠ .asleep false := by
  cases point <;> simp [ProducerPoint.signal]

theorem consumer_signal_wakes (point : ConsumerPoint β) : point.signal ≠ .asleep false := by
  cases point <;> simp [ConsumerPoint.signal]

/-- A step of the producer inside of its call leaves the consumer rested, and is
rested itself if it does not fall asleep or may. -/
theorem producer_rested {queue next : Queue β} {point : ProducerPoint} (rested : Rested queue)
    (moved : next = { queue with producer := point })
    (sleeps : point = .asleep false → queue.active = true ∧ queue.length = queue.capacity) :
    Rested next := by
  subst moved
  exact ⟨sleeps, rested.consumer⟩

/-- A step of the consumer inside of its call leaves the producer rested, and is rested
itself if it does not fall asleep or may: on an active queue without blocks. -/
theorem consumer_rested {queue next : Queue β} {point : ConsumerPoint β} (rested : Rested queue)
    (moved : next = { queue with consumer := point })
    (sleeps : point = .asleep false → queue.active = true ∧ queue.length = 0) : Rested next := by
  subst moved
  exact ⟨rested.producer, sleeps⟩

/-- Every step leaves the sleepers rested. -/
theorem step_rested {queue next : Queue β} {label : QueueLabel β} (consistent : Consistent queue)
    (rested : Rested queue) (taken : queue.step label = some next) : Rested next := by
  cases label with
  | pushLoadActive =>
    rcases push_load_active_cases taken with ⟨_, ⟨_, moved⟩ | ⟨_, moved⟩⟩ <;>
      exact producer_rested rested moved (by simp)
  | pushLoadLength =>
    rcases push_load_length_cases taken with ⟨_, ⟨_, moved⟩ | ⟨_, moved⟩⟩ <;>
      exact producer_rested rested moved (by simp)
  | pushLocked =>
    rcases push_locked_cases taken with
      ⟨_, ⟨_, active, full, moved⟩ | ⟨_, moved⟩ | ⟨_, _, _, moved⟩ | ⟨_, _, moved⟩⟩
    · have sleeps : queue.length = queue.capacity := Nat.le_antisymm consistent.bounded full
      exact producer_rested rested moved fun _ => ⟨active, sleeps⟩
    · exact producer_rested rested moved (by simp)
    · exact producer_rested rested moved (by simp)
    · exact producer_rested rested moved (by simp)
  | wakeProducer =>
    rcases wake_producer_cases taken with ⟨_, moved⟩
    exact producer_rested rested moved (by simp)
  | fill content =>
    rcases fill_cases taken with ⟨slot, _, rfl⟩
    exact ⟨rested.producer, rested.consumer⟩
  | pushCommit =>
    rcases push_commit_cases taken with ⟨slot, _, rfl⟩
    constructor
    · simp
    · intro asleep
      exact absurd asleep (consumer_signal_wakes queue.consumer)
  | popLoadLength =>
    rcases pop_load_length_cases taken with ⟨_, ⟨_, moved⟩ | ⟨_, moved⟩⟩ <;>
      exact consumer_rested rested moved (by simp)
  | popLocked =>
    rcases pop_locked_cases taken with
      ⟨_, ⟨empty, active, moved⟩ | ⟨_, _, moved⟩ | ⟨_, moved⟩⟩
    · exact consumer_rested rested moved fun _ => ⟨active, empty⟩
    · exact consumer_rested rested moved (by simp)
    · exact consumer_rested rested moved (by simp)
  | wakeConsumer =>
    rcases wake_consumer_cases taken with ⟨_, moved⟩
    exact consumer_rested rested moved (by simp)
  | popRead =>
    rcases pop_read_cases taken with ⟨slot, _, moved⟩
    exact consumer_rested rested moved (by simp)
  | popCommit =>
    rcases pop_commit_cases taken with ⟨slot, content, _, rfl⟩
    constructor
    · intro asleep
      exact absurd asleep (producer_signal_wakes queue.producer)
    · simp
  | finalizeLoad =>
    rcases finalize_load_cases taken with ⟨_, rfl⟩ | ⟨_, rfl⟩
    · exact ⟨rested.producer, rested.consumer⟩
    · exact rested
  | finalizeLocked =>
    rcases finalize_locked_cases taken with ⟨_, rfl⟩
    constructor
    · intro asleep
      exact absurd asleep (producer_signal_wakes queue.producer)
    · intro asleep
      exact absurd asleep (consumer_signal_wakes queue.consumer)

/-- Consistency and rest are kept together. -/
theorem step_consistent_rested {queue next : Queue β} {label : QueueLabel β}
    (both : Consistent queue ∧ Rested queue) (taken : queue.step label = some next) :
    Consistent next ∧ Rested next :=
  ⟨step_consistent both.1 taken, step_rested both.1 both.2 taken⟩

/-- The steps by which a party goes on in its own code. A wake-up without a signal
is none of them, and neither is a step of anyone else. -/
def QueueLabel.goesOn : QueueLabel β → Bool
  | .pushLoadActive | .pushLoadLength | .pushLocked | .pushCommit => true
  | .popLoadLength | .popLocked | .popRead | .popCommit => true
  | _ => false

/-- A producer that does not sleep, or has a wake-up pending, can go on. -/
theorem producer_goes_on {queue : Queue β} (awake : queue.producer ≠ .asleep false) :
    ∃ label, label.goesOn = true ∧ (queue.step label).isSome = true := by
  cases point : queue.producer with
  | outside answer => exact ⟨.pushLoadActive, rfl, by simp [Queue.step, pushLoadActive, point]⟩
  | loadLength => exact ⟨.pushLoadLength, rfl, by simp [Queue.step, pushLoadLength, point]⟩
  | lock =>
    exact ⟨.pushLocked, rfl, by simp [Queue.step, pushLocked, point, ProducerPoint.entering]⟩
  | asleep woken =>
    cases woken with
    | false => exact absurd point awake
    | true =>
      exact ⟨.pushLocked, rfl, by simp [Queue.step, pushLocked, point, ProducerPoint.entering]⟩
  | holding slot => exact ⟨.pushCommit, rfl, by simp [Queue.step, jpQueuePushCommit, point]⟩

/-- A consumer that does not sleep, or has a wake-up pending, can go on. -/
theorem consumer_goes_on {queue : Queue β} (awake : queue.consumer ≠ .asleep false) :
    ∃ label, label.goesOn = true ∧ (queue.step label).isSome = true := by
  cases point : queue.consumer with
  | outside answer => exact ⟨.popLoadLength, rfl, by simp [Queue.step, popLoadLength, point]⟩
  | lock =>
    exact ⟨.popLocked, rfl, by simp [Queue.step, popLocked, point, ConsumerPoint.entering]⟩
  | asleep woken =>
    cases woken with
    | false => exact absurd point awake
    | true =>
      exact ⟨.popLocked, rfl, by simp [Queue.step, popLocked, point, ConsumerPoint.entering]⟩
  | holding slot => exact ⟨.popRead, rfl, by simp [Queue.step, popRead, point]⟩
  | reading slot content =>
    exact ⟨.popCommit, rfl, by simp [Queue.step, jpQueuePopCommit, point]⟩

/-- No wake-up is lost: whoever sleeps without one pending has nothing to do, the
two parties never both sleep, nobody sleeps on an inactive queue, and someone can
go on. -/
structure NoLostWakeup (queue : Queue β) : Prop where
  producer : queue.producer = .asleep false →
    queue.active = true ∧ queue.length = queue.capacity
  consumer : queue.consumer = .asleep false → queue.active = true ∧ queue.length = 0
  apart : ¬ (queue.producer = .asleep false ∧ queue.consumer = .asleep false)
  roused : queue.active = false →
    queue.producer ≠ .asleep false ∧ queue.consumer ≠ .asleep false
  live : ∃ label, label.goesOn = true ∧ (queue.step label).isSome = true

/-- What the rested sleepers of a consistent queue amount to. -/
theorem rested_live {queue : Queue β} (consistent : Consistent queue) (rested : Rested queue) :
    NoLostWakeup queue := by
  have apart : ¬ (queue.producer = .asleep false ∧ queue.consumer = .asleep false) := by
    rintro ⟨producing, consuming⟩
    have full := (rested.producer producing).2
    have empty := (rested.consumer consuming).2
    have positive := consistent.positive
    omega
  refine ⟨rested.producer, rested.consumer, apart, ?_, ?_⟩
  · intro inactive
    constructor
    · intro asleep
      simp [(rested.producer asleep).1] at inactive
    · intro asleep
      simp [(rested.consumer asleep).1] at inactive
  · by_cases producing : queue.producer = .asleep false
    · exact consumer_goes_on fun consuming => apart ⟨producing, consuming⟩
    · exact producer_goes_on producing

/-- Along every interleaving of one producer, one consumer and any calls of
`jp_queue_finalize`, wake-ups without a signal included, no wake-up is lost. -/
theorem no_lost_wakeup {capacity : Nat} (positive : 0 < capacity) (policy : Policy)
    (blocks : Nat → β) (schedule : List (QueueLabel β)) (final : Queue β)
    (completed : Schedules.run Queue.step (jpQueueCreate capacity policy blocks) schedule =
      some final) : NoLostWakeup final := by
  have start : Consistent (jpQueueCreate capacity policy blocks) ∧
      Rested (jpQueueCreate capacity policy blocks) :=
    ⟨create_consistent positive policy blocks, by simp [jpQueueCreate], by simp [jpQueueCreate]⟩
  have kept : Consistent final ∧ Rested final :=
    Schedules.run_invariant (fun _ _ _ => step_consistent_rested) start completed
  exact rested_live kept.1 kept.2

/-- The producer asleep on the full ring of capacity one while the consumer reads
its block. -/
theorem full_ring_wakes :
    ∃ final, Schedules.run Queue.step (jpQueueCreate 1 .wait (fun _ => 0))
        [.pushLoadActive, .pushLoadLength, .pushCommit, .pushLoadActive, .pushLoadLength,
          .pushLocked, .popLoadLength, .popRead] = some final ∧
      final.producer = .asleep false ∧ NoLostWakeup final := by
  have ran : (Schedules.run Queue.step (jpQueueCreate 1 .wait (fun _ => 0))
      [.pushLoadActive, .pushLoadLength, .pushCommit, .pushLoadActive, .pushLoadLength,
        .pushLocked, .popLoadLength, .popRead]).map Queue.producer = some (.asleep false) := by
    decide
  rcases Option.map_eq_some_iff.mp ran with ⟨final, completed, asleep⟩
  exact ⟨final, completed, asleep, no_lost_wakeup Nat.one_pos .wait (fun _ => 0) _ final completed⟩

end Wakeups

end JPipe
