import JPipe.Contents
import JPipe.QueueSafety
import JPipe.Schedules
import JPipe.Words
import Mathlib.Data.List.Basic
import Mathlib.Logic.Function.Basic

/-!
# The queue in its allocation

`jp_queue_create` makes one allocation: `jp_queue_t`, the entries of the blocks and
the area their data lies in, one chunk for each block. Every number of the queue is
a word of this allocation, next to the bytes the reader stores and the writer looks
at; only where the threads stand is outside of it. A step reads the words it needs
and stores those that its function stores, and a store outside of the allocation has
no result.

The queue over byte strings has no addresses. The queue in its allocation takes the
same steps over the lengths of the blocks, and the words and the bytes in the
allocation are at all times what that queue says.
-/

namespace JPipe

/-! ### The allocation -/

/-- The sizes `jp_queue_create` is called with, and what the platform adds to them: the
width of a `size_t` and of a pointer, the bytes of the lock and its two conditions, and
the address the allocation gets. -/
structure Sizes where
  word : Nat
  locks : Nat
  base : Nat
  capacity : Nat
  chunkSize : Nat
deriving DecidableEq, Repr

/-- The first offset from here on that `alignas(64)` allows. -/
def aligned (offset : Nat) : Nat := (offset + 63) / 64 * 64

theorem le_aligned (offset : Nat) : offset ≤ aligned offset := by
  unfold aligned
  omega

/-- The numbers of `jp_queue_t`. -/
inductive QueueField where
  | head
  | tail
  | capacity
  | chunkSize
  | active
  | length
  | policy
  | blocks
  | area
deriving DecidableEq, Repr

/-- What stands in the allocation: the numbers of `jp_queue_t`, the lock with its
conditions, `data` and `length` of each block, and the bytes of each block. -/
inductive Place where
  | field (field : QueueField)
  | locks
  | data (slot : Nat)
  | length (slot : Nat)
  | chunk (slot : Nat)
deriving DecidableEq, Repr

namespace Sizes

variable (sizes : Sizes)

/-- Where `policy` stands, behind the lock and the conditions. -/
def policyOffset : Nat := 320 + aligned sizes.locks

/-- `blocks_offset`: `sizeof(jp_queue_t)`. -/
def blocksOffset : Nat := sizes.policyOffset + 128

/-- `area_offset`; a `jp_block_t` is a pointer and a `size_t`. -/
def areaOffset : Nat := sizes.blocksOffset + sizes.capacity * (2 * sizes.word)

/-- `total_size`. -/
def totalSize : Nat := sizes.areaOffset + sizes.capacity * sizes.chunkSize

/-- Where a word of the entries stands: `data` and `length` of each block in turn. -/
def entry (index : Nat) : Nat := Region.tile sizes.blocksOffset sizes.word index

/-- `blocks[i].data`, from the start of the allocation. -/
def data (slot : Nat) : Nat := Region.tile sizes.areaOffset sizes.chunkSize slot

/-- Where a number of `jp_queue_t` stands. -/
def fieldWindow : QueueField → Region.Window
  | .head => ⟨0, sizes.word⟩
  | .tail => ⟨64, sizes.word⟩
  | .capacity => ⟨128, sizes.word⟩
  | .chunkSize => ⟨128 + sizes.word, sizes.word⟩
  | .active => ⟨192, 1⟩
  | .length => ⟨256, sizes.word⟩
  | .policy => ⟨sizes.policyOffset, 4⟩
  | .blocks => ⟨sizes.policyOffset + 64, sizes.word⟩
  | .area => ⟨sizes.policyOffset + 64 + sizes.word, sizes.word⟩

/-- Where each of these stands. -/
def window : Place → Region.Window
  | .field field => sizes.fieldWindow field
  | .locks => ⟨320, sizes.locks⟩
  | .data slot => ⟨sizes.entry (2 * slot), sizes.word⟩
  | .length slot => ⟨sizes.entry (2 * slot + 1), sizes.word⟩
  | .chunk slot => ⟨sizes.data slot, sizes.chunkSize⟩

/-- There is one block for each slot. -/
def Present : Place → Prop
  | .field _ | .locks => True
  | .data slot | .length slot | .chunk slot => slot < sizes.capacity

end Sizes

/-- Sizes of a queue there can be: two words fit where `jp_queue_t` has two of them on one
line, and the allocation lies where a pointer reaches. -/
structure Layout extends Sizes where
  narrow : 2 * word ≤ 64
  addressable : base + toSizes.totalSize < 256 ^ word

section Windows

variable (layout : Layout)

/-- The lock and the conditions lie before `policy`. -/
theorem locks_inside : 320 + layout.locks ≤ layout.policyOffset :=
  Nat.add_le_add_left (le_aligned layout.locks) 320

/-- The numbers of `jp_queue_t` lie below `blocks_offset`, inside of `jp_queue_t`. -/
theorem field_inside (field : QueueField) :
    (layout.fieldWindow field).position + (layout.fieldWindow field).width ≤
      layout.blocksOffset := by
  have narrow := layout.narrow
  have below := locks_inside layout
  cases field <;> simp only [Sizes.fieldWindow, Sizes.blocksOffset] <;> omega

/-- No number of `jp_queue_t` shares a byte with the lock and the conditions. -/
theorem locks_apart (field : QueueField) :
    (layout.fieldWindow field).Apart (layout.window .locks) := by
  have narrow := layout.narrow
  have below := locks_inside layout
  cases field <;> simp only [Region.Window.Apart, Sizes.fieldWindow, Sizes.window] <;> omega

/-- No two numbers of `jp_queue_t` share a byte. -/
theorem fields_apart {first second : QueueField} (different : first ≠ second) :
    (layout.fieldWindow first).Apart (layout.fieldWindow second) := by
  have narrow := layout.narrow
  have below := locks_inside layout
  cases first <;> cases second <;>
    simp only [Region.Window.Apart, Sizes.fieldWindow, ne_eq, reduceCtorEq, not_true_eq_false,
      not_false_eq_true] at different ⊢ <;> omega

/-- The words of the entries lie between `jp_queue_t` and the area. -/
theorem entry_inside {index : Nat} (present : index < 2 * layout.capacity) :
    layout.blocksOffset ≤ layout.entry index ∧
      layout.entry index + layout.word ≤ layout.areaOffset := by
  refine ⟨Nat.le_add_right _ _, ?_⟩
  have inside := @Region.tile_inside layout.blocksOffset layout.word _ _ present
  rwa [Nat.mul_comm 2, Nat.mul_assoc] at inside

/-- The data of a block lies in the area. -/
theorem data_inside {slot : Nat} (present : slot < layout.capacity) :
    layout.areaOffset ≤ layout.data slot ∧
      layout.data slot + layout.chunkSize ≤ layout.totalSize :=
  ⟨Nat.le_add_right _ _, Region.tile_inside present⟩

/-- What stands in `jp_queue_t`, in the entries, and in the area. -/
theorem place_cases {place : Place} (present : layout.Present place) :
    ((layout.window place).position + (layout.window place).width ≤ layout.blocksOffset ∧
        (place = .locks ∨ ∃ field, place = .field field)) ∨
      (∃ index, layout.window place = ⟨layout.entry index, layout.word⟩ ∧
        index < 2 * layout.capacity ∧
        place = if index % 2 = 0 then .data (index / 2) else .length (index / 2)) ∨
      ∃ slot, place = .chunk slot ∧ slot < layout.capacity := by
  cases place with
  | field field => exact Or.inl ⟨field_inside layout field, Or.inr ⟨field, rfl⟩⟩
  | locks =>
    exact Or.inl ⟨(locks_inside layout).trans (Nat.le_add_right _ _), Or.inl rfl⟩
  | data slot =>
    have below : slot < layout.capacity := present
    refine Or.inr (Or.inl ⟨2 * slot, rfl, by omega, ?_⟩)
    rw [if_pos (by omega)]
    congr
    omega
  | length slot =>
    have below : slot < layout.capacity := present
    refine Or.inr (Or.inl ⟨2 * slot + 1, rfl, by omega, ?_⟩)
    rw [if_neg (by omega)]
    congr
    omega
  | chunk slot => exact Or.inr (Or.inr ⟨slot, rfl, present⟩)

/-- Everything lies in the allocation. -/
theorem place_inside {place : Place} (present : layout.Present place) :
    (layout.window place).position + (layout.window place).width ≤ layout.totalSize := by
  have header : layout.blocksOffset ≤ layout.areaOffset := Nat.le_add_right _ _
  have whole : layout.areaOffset ≤ layout.totalSize := Nat.le_add_right _ _
  rcases place_cases layout present with ⟨below, _⟩ | ⟨index, same, counted, _⟩ | ⟨slot, rfl, there⟩
  · omega
  · have inside := (entry_inside layout counted).2
    rw [same]
    exact inside.trans whole
  · exact (data_inside layout there).2

/-- No two of the places share a byte: the numbers and the lock of `jp_queue_t` have
windows of their own, the words of the entries are tiles behind them, and the chunks are
tiles behind these. -/
theorem places_apart {first second : Place} (one : layout.Present first)
    (two : layout.Present second) (different : first ≠ second) :
    (layout.window first).Apart (layout.window second) := by
  have header : layout.blocksOffset ≤ layout.areaOffset := Nat.le_add_right _ _
  rcases place_cases layout one with
      ⟨below, known⟩ | ⟨index, same, counted, named⟩ | ⟨slot, rfl, there⟩ <;>
    rcases place_cases layout two with
      ⟨under, also⟩ | ⟨other, equal, within, called⟩ | ⟨place, rfl, inside⟩
  · rcases known with rfl | ⟨field, rfl⟩ <;> rcases also with rfl | ⟨more, rfl⟩
    · exact absurd rfl different
    · exact Region.apart_symm (locks_apart layout more)
    · exact locks_apart layout field
    · exact fields_apart layout fun same => different (congrArg Place.field same)
  · left
    rw [equal]
    exact below.trans (entry_inside layout within).1
  · left
    exact below.trans (header.trans (data_inside layout inside).1)
  · right
    rw [same]
    exact under.trans (entry_inside layout counted).1
  · rw [same, equal]
    apply Region.tiles_apart
    rintro rfl
    exact different (named.trans called.symm)
  · left
    rw [same]
    exact (entry_inside layout counted).2.trans (data_inside layout inside).1
  · right
    exact under.trans (header.trans (data_inside layout there).1)
  · right
    rw [equal]
    exact (entry_inside layout within).2.trans (data_inside layout there).1
  · apply Region.tiles_apart
    rintro rfl
    exact different rfl

/-- The places of an allocation. -/
def Layout.plan : Region.Plan Place layout.totalSize where
  window := layout.window
  Present := layout.Present
  inside := fun _ => place_inside layout
  apart := fun _ _ => places_apart layout

end Windows

/-! ### What the allocation says -/

/-- The value of `jp_queue_policy_t`. -/
def Policy.code : Policy → Nat
  | .wait => 0
  | .drop => 1

/-- The numbers of a queue over the lengths of its blocks, as the allocation has them.
The lock and the bytes of the blocks are none. -/
def Layout.value (layout : Layout) (queue : Queue Nat) : Place → Nat
  | .field .head => queue.head
  | .field .tail => queue.tail
  | .field .capacity => queue.capacity
  | .field .chunkSize => layout.chunkSize
  | .field .active => queue.active.toNat
  | .field .length => queue.length
  | .field .policy => queue.policy.code
  | .field .blocks => layout.base + layout.blocksOffset
  | .field .area => layout.base + layout.areaOffset
  | .data slot => layout.base + layout.data slot
  | .length slot => queue.blocks slot
  | .locks | .chunk _ => 0

/-- A place that holds a number. -/
def Place.numeric : Place → Bool
  | .locks | .chunk _ => false
  | _ => true

/-- The queue in its allocation: the bytes, and where the threads stand and what was
committed and popped so far, which are not stored. -/
structure Arena (layout : Layout) where
  memory : Region Byte layout.totalSize
  producer : ProducerPoint
  consumer : ConsumerPoint Nat
  finalizing : Nat
  committed : List (Nat × Nat)
  popped : List Nat

section Allocation

variable {layout : Layout}

/-- The number in a place. -/
def Arena.load (arena : Arena layout) (place : Place) : Nat :=
  (arena.memory.load (layout.window place)).getD 0

/-- The queue as a step finds it: its numbers are loaded from the allocation. There is no
block behind the last one. -/
def Arena.queue (arena : Arena layout) : Queue Nat where
  head := arena.load (.field .head)
  tail := arena.load (.field .tail)
  capacity := arena.load (.field .capacity)
  length := arena.load (.field .length)
  active := arena.load (.field .active) ≠ 0
  policy := if arena.load (.field .policy) = Policy.wait.code then .wait else .drop
  blocks := fun slot => if slot < layout.capacity then arena.load (.length slot) else 0
  producer := arena.producer
  consumer := arena.consumer
  finalizing := arena.finalizing
  committed := arena.committed
  popped := arena.popped

/-- What a step leaves outside of the allocation, over the bytes it leaves inside. -/
def Arena.over (queue : Queue Nat) (memory : Region Byte layout.totalSize) : Arena layout where
  memory := memory
  producer := queue.producer
  consumer := queue.consumer
  finalizing := queue.finalizing
  committed := queue.committed
  popped := queue.popped

/-- The stores of `jp_queue_create`, in their order. -/
def createdPlaces (capacity : Nat) : List Place :=
  [.field .capacity, .field .chunkSize, .field .policy, .field .head, .field .tail,
    .field .blocks, .field .area, .field .active, .field .length] ++
    (List.range capacity).flatMap fun slot => [.data slot, .length slot]

/-- `jp_queue_create`; what it does not store to may hold anything. -/
def Arena.create (policy : Policy) (memory : Region Byte layout.totalSize) :
    Option (Arena layout) :=
  let queue := jpQueueCreate layout.capacity policy fun _ => 0
  (layout.plan.storeAll (layout.value queue) (createdPlaces layout.capacity) memory).map
    (Arena.over queue)

/-- The places a step of the queue stores to. -/
def QueueLabel.stored : QueueLabel Empty → List Place
  | .pushCommit => [.field .tail, .field .length]
  | .popCommit => [.field .head, .field .length]
  | .finalizeLocked => [.field .active]
  | _ => []

/-- What is done to the queue in its allocation: a step of the queue, which fills
nothing, `block->length = 0`, what `read` stores behind the bytes of the block, with the
length that follows, and what the functions of the lock and the conditions store. -/
inductive ArenaLabel where
  | queue (label : QueueLabel Empty)
  | clear
  | store (bytes : List Byte)
  | locks (bytes : List Byte)

/-- One step. `read` gives no more than `chunk_size - block->length` bytes, and stores
them behind `block->data + block->length`. -/
def Arena.step (arena : Arena layout) : ArenaLabel → Option (Arena layout)
  | .queue label =>
    (arena.queue.step label.lift).bind fun next =>
      (layout.plan.storeAll (layout.value next) label.stored arena.memory).map (Arena.over next)
  | .clear =>
    match arena.producer with
    | .holding slot =>
      (arena.memory.store (layout.window (.length slot)) 0).map fun memory =>
        { arena with memory := memory }
    | _ => none
  | .store bytes =>
    match arena.producer with
    | .holding slot =>
      let length := arena.load (.length slot)
      if bytes.length ≤ layout.chunkSize - length then
        (Region.distance (arena.load (.data slot)) layout.base).bind fun offset =>
          (arena.memory.write (offset + length) bytes).bind fun filled =>
            (filled.store (layout.window (.length slot)) (length + bytes.length)).map fun memory =>
              { arena with memory := memory }
      else none
    | _ => none
  | .locks bytes =>
    if bytes.length = layout.locks then
      (arena.memory.write (layout.window .locks).position bytes).map fun memory =>
        { arena with memory := memory }
    else none

end Allocation

end JPipe
