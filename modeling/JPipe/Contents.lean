import JPipe.Queue
import Mathlib.Logic.Function.Basic

/-!
# What the queue knows of its blocks

The queue does the same whatever its blocks contain: a step commutes with taking the
contents over to others along any function. So a queue over the lengths of its blocks
takes the steps of one over their bytes. A step that fills no block leaves their
contents and their number.
-/

namespace JPipe

section Contents

variable {α β : Type}

/-- The point with the content it holds taken over. -/
def ConsumerPoint.map (along : α → β) : ConsumerPoint α → ConsumerPoint β
  | .outside answer => .outside answer
  | .lock => .lock
  | .asleep woken => .asleep woken
  | .holding slot => .holding slot
  | .reading slot content => .reading slot (along content)

/-- The queue with its contents taken over. -/
def Queue.map (along : α → β) (queue : Queue α) : Queue β where
  head := queue.head
  tail := queue.tail
  capacity := queue.capacity
  length := queue.length
  active := queue.active
  policy := queue.policy
  blocks := fun slot => along (queue.blocks slot)
  producer := queue.producer
  consumer := queue.consumer.map along
  finalizing := queue.finalizing
  committed := queue.committed.map (Prod.map id along)
  popped := queue.popped.map along

/-- A step with what it fills in taken over. -/
def QueueLabel.map (along : α → β) : QueueLabel α → QueueLabel β
  | .pushLoadActive => .pushLoadActive
  | .pushLoadLength => .pushLoadLength
  | .pushLocked => .pushLocked
  | .wakeProducer => .wakeProducer
  | .fill content => .fill (along content)
  | .pushCommit => .pushCommit
  | .popLoadLength => .popLoadLength
  | .popLocked => .popLocked
  | .wakeConsumer => .wakeConsumer
  | .popRead => .popRead
  | .popCommit => .popCommit
  | .finalizeLoad => .finalizeLoad
  | .finalizeLocked => .finalizeLocked

@[simp] theorem signal_map (along : α → β) (point : ConsumerPoint α) :
    (point.map along).signal = point.signal.map along := by
  cases point <;> rfl

@[simp] theorem entering_map (along : α → β) (point : ConsumerPoint α) :
    (point.map along).entering = point.entering := by
  cases point <;> rfl

/-- The queue does the same whatever its blocks contain. -/
theorem step_map (along : α → β) (queue : Queue α) (label : QueueLabel α) :
    (queue.map along).step (label.map along) = (queue.step label).map (Queue.map along) := by
  cases label with
  | pushLoadActive =>
    change pushLoadActive (queue.map along) = (pushLoadActive queue).map _
    rw [pushLoadActive, pushLoadActive, Queue.map]
    cases queue.producer <;> rfl
  | pushLoadLength =>
    change pushLoadLength (queue.map along) = (pushLoadLength queue).map _
    rw [pushLoadLength, pushLoadLength, Queue.map]
    cases queue.producer <;> rfl
  | pushLocked =>
    change pushLocked (queue.map along) = (pushLocked queue).map _
    rw [pushLocked, pushLocked, Queue.map]
    split <;> rfl
  | wakeProducer =>
    change wakeProducer (queue.map along) = (wakeProducer queue).map _
    rw [wakeProducer, wakeProducer, Queue.map]
    cases queue.producer with
    | asleep woken => cases woken <;> rfl
    | _ => rfl
  | fill content =>
    change fill (queue.map along) (along content) = (fill queue content).map _
    rw [fill, fill, Queue.map]
    cases queue.producer with
    | holding slot =>
      simp only [Option.map_some, Queue.map]
      congr 2
      exact (Function.comp_update along queue.blocks slot content).symm
    | _ => rfl
  | pushCommit =>
    change jpQueuePushCommit (queue.map along) = (jpQueuePushCommit queue).map _
    rw [jpQueuePushCommit, jpQueuePushCommit, Queue.map]
    cases queue.producer <;> simp [Queue.map]
  | popLoadLength =>
    change popLoadLength (queue.map along) = (popLoadLength queue).map _
    rw [popLoadLength, popLoadLength, Queue.map]
    cases queue.consumer <;> simp [ConsumerPoint.map, Queue.map]
    split <;> rfl
  | popLocked =>
    change popLocked (queue.map along) = (popLocked queue).map _
    rw [popLocked, popLocked, Queue.map]
    simp only [entering_map]
    split
    · simp only [Option.map_some, Queue.map]
      congr 2
      split_ifs <;> rfl
    · rfl
  | wakeConsumer =>
    change wakeConsumer (queue.map along) = (wakeConsumer queue).map _
    rw [wakeConsumer, wakeConsumer, Queue.map]
    cases queue.consumer with
    | asleep woken => cases woken <;> rfl
    | _ => rfl
  | popRead =>
    change popRead (queue.map along) = (popRead queue).map _
    rw [popRead, popRead, Queue.map]
    cases queue.consumer <;> rfl
  | popCommit =>
    change jpQueuePopCommit (queue.map along) = (jpQueuePopCommit queue).map _
    rw [jpQueuePopCommit, jpQueuePopCommit, Queue.map]
    cases queue.consumer <;> simp [ConsumerPoint.map, Queue.map]
  | finalizeLoad => rfl
  | finalizeLocked =>
    change finalizeLocked (queue.map along) = (finalizeLocked queue).map _
    rw [finalizeLocked, finalizeLocked, Queue.map]
    split <;> simp [Queue.map]

/-- A step of the queue that fills nothing, as one over any contents. -/
def QueueLabel.lift {β : Type} (label : QueueLabel Empty) : QueueLabel β := label.map Empty.elim

/-- A step that fills nothing is one over any contents. -/
theorem unfilling_lift {β : Type} {label : QueueLabel β}
    (unfilling : ∀ content, label ≠ .fill content) :
    ∃ plain : QueueLabel Empty, plain.lift = label := by
  cases label with
  | pushLoadActive => exact ⟨.pushLoadActive, rfl⟩
  | pushLoadLength => exact ⟨.pushLoadLength, rfl⟩
  | pushLocked => exact ⟨.pushLocked, rfl⟩
  | wakeProducer => exact ⟨.wakeProducer, rfl⟩
  | fill content => exact absurd rfl (unfilling content)
  | pushCommit => exact ⟨.pushCommit, rfl⟩
  | popLoadLength => exact ⟨.popLoadLength, rfl⟩
  | popLocked => exact ⟨.popLocked, rfl⟩
  | wakeConsumer => exact ⟨.wakeConsumer, rfl⟩
  | popRead => exact ⟨.popRead, rfl⟩
  | popCommit => exact ⟨.popCommit, rfl⟩
  | finalizeLoad => exact ⟨.finalizeLoad, rfl⟩
  | finalizeLocked => exact ⟨.finalizeLocked, rfl⟩

/-- A step that fills nothing commutes with taking the contents over. -/
theorem step_lift (along : α → β) (queue : Queue α) (label : QueueLabel Empty) :
    (queue.map along).step label.lift = (queue.step label.lift).map (Queue.map along) := by
  have same : (label.lift : QueueLabel β) = (label.lift : QueueLabel α).map along := by
    cases label with
    | fill content => exact content.elim
    | _ => rfl
  rw [same, step_map]

/-- What a step that fills nothing leaves of the queue: each number but those that the
step stores. -/
structure Unfilled (label : QueueLabel Empty) (queue next : Queue β) : Prop where
  blocks : next.blocks = queue.blocks
  capacity : next.capacity = queue.capacity
  policy : next.policy = queue.policy
  head : label ≠ .popCommit → next.head = queue.head
  tail : label ≠ .pushCommit → next.tail = queue.tail
  length : label ≠ .pushCommit → label ≠ .popCommit → next.length = queue.length
  active : label ≠ .finalizeLocked → next.active = queue.active

/-- No step that fills nothing changes another number. -/
theorem step_unfilled {queue next : Queue β} {label : QueueLabel Empty}
    (taken : queue.step label.lift = some next) : Unfilled label queue next := by
  cases label with
  | pushLoadActive | pushLoadLength | pushLocked | wakeProducer =>
    obtain ⟨point, rfl⟩ := push_moves rfl taken
    constructor <;> intros <;> rfl
  | fill content => exact content.elim
  | pushCommit =>
    obtain ⟨slot, _, rfl⟩ := push_commit_cases taken
    constructor <;> intros <;> first | rfl | contradiction
  | popLoadLength | popLocked | wakeConsumer | popRead =>
    obtain ⟨point, rfl⟩ := pop_moves rfl (by simp [QueueLabel.lift, QueueLabel.map]) taken
    constructor <;> intros <;> rfl
  | popCommit =>
    obtain ⟨slot, content, _, rfl⟩ := pop_commit_cases taken
    constructor <;> intros <;> first | rfl | contradiction
  | finalizeLoad =>
    obtain ⟨_, rfl⟩ | ⟨_, rfl⟩ := finalize_load_cases taken <;> constructor <;> intros <;> rfl
  | finalizeLocked =>
    obtain ⟨_, rfl⟩ := finalize_locked_cases taken
    constructor <;> intros <;> first | rfl | contradiction

end Contents

end JPipe
