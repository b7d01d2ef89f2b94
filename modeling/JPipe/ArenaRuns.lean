import JPipe.Arena

/-!
# The queue over byte strings in its allocation

At every moment of every run the words of the allocation are the numbers of a queue
over byte strings, and the chunks begin with the bytes of its blocks. So no step can
leave the allocation: what the queue over byte strings can do can be done there. The
capacity, the policy and the pointers are at the end of a run what
`jp_queue_create` stored.
-/

namespace JPipe

section Allocation

variable {layout : Layout}

/-- The queue in its allocation is a queue over byte strings: the words are its numbers,
the threads stand where its threads stand, and the bytes of each block stand in its
chunk. -/
structure LaidOut (arena : Arena layout) (queue : Queue (List Byte)) : Prop where
  words : ∀ place, place.numeric = true → layout.Present place →
    arena.memory.load (layout.window place) =
      some (layout.value (queue.map List.length) place)
  points : arena = Arena.over (queue.map List.length) arena.memory
  capacity : queue.capacity = layout.capacity
  fits : ∀ slot < layout.capacity, (queue.blocks slot).length ≤ layout.chunkSize
  beyond : ∀ slot, layout.capacity ≤ slot → queue.blocks slot = []
  content : ∀ slot < layout.capacity,
    arena.memory.read (layout.data slot) (queue.blocks slot).length = some (queue.blocks slot)

/-- A number loaded is that of the queue. -/
theorem laid_out_load {arena : Arena layout} {queue : Queue (List Byte)}
    (stored : LaidOut arena queue) {place : Place} (numeric : place.numeric = true)
    (present : layout.Present place) :
    arena.load place = layout.value (queue.map List.length) place := by
  rw [Arena.load, stored.words place numeric present, Option.getD_some]

/-- The queue as a step finds it is the one over the lengths of the blocks. -/
theorem laid_out_queue {arena : Arena layout} {queue : Queue (List Byte)}
    (stored : LaidOut arena queue) : arena.queue = queue.map List.length := by
  have number (field : QueueField) :
      arena.load (.field field) = layout.value (queue.map List.length) (.field field) :=
    laid_out_load stored rfl trivial
  have policy : (if queue.policy.code = Policy.wait.code then Policy.wait else .drop) =
      queue.policy := by
    cases queue.policy <;> rfl
  have active : decide (queue.active.toNat ≠ 0) = queue.active := by
    cases queue.active <;> rfl
  have blocks : (fun slot => if slot < layout.capacity then arena.load (.length slot) else 0) =
      fun slot => (queue.blocks slot).length := by
    funext slot
    split
    · rename_i present
      exact laid_out_load stored rfl present
    · rename_i behind
      rw [stored.beyond slot (Nat.not_lt.mp behind), List.length_nil]
  have producer : arena.producer = _ := congrArg Arena.producer stored.points
  have consumer : arena.consumer = _ := congrArg Arena.consumer stored.points
  have finalizing : arena.finalizing = _ := congrArg Arena.finalizing stored.points
  have committed : arena.committed = _ := congrArg Arena.committed stored.points
  have popped : arena.popped = _ := congrArg Arena.popped stored.points
  simp only [Arena.queue, number, Layout.value, blocks, producer, consumer, finalizing, committed,
    popped, Arena.over, Queue.map, policy, active]

/-- The length of a block is that of its content. -/
theorem laid_out_length {arena : Arena layout} {queue : Queue (List Byte)}
    (stored : LaidOut arena queue) {slot : Nat} (present : slot < layout.capacity) :
    arena.load (.length slot) = (queue.blocks slot).length :=
  laid_out_load stored rfl present

/-- The producer of the allocation stands where that of the queue over byte strings does,
so that both hold the same block. -/
theorem laid_out_producer {arena : Arena layout} {queue : Queue (List Byte)}
    (stored : LaidOut arena queue) : arena.producer = queue.producer := by
  rw [stored.points]
  rfl

/-- A place of the platform's width has room for every size and address in the
allocation. -/
theorem word_room (positive : 0 < layout.capacity) :
    layout.capacity < 256 ^ layout.word ∧ layout.chunkSize < 256 ^ layout.word := by
  have addressable := layout.addressable
  have header : 448 ≤ layout.blocksOffset := by
    simp only [Sizes.blocksOffset, Sizes.policyOffset]
    omega
  have entries : layout.blocksOffset + layout.capacity * (2 * layout.word) ≤ layout.totalSize :=
    Nat.le_add_right _ _
  have chunks : layout.capacity * layout.chunkSize ≤ layout.totalSize := Nat.le_add_left _ _
  have some : 0 < layout.word := by
    by_contra none
    rw [Nat.eq_zero_of_not_pos none, Nat.pow_zero] at addressable
    omega
  have counted : layout.capacity ≤ layout.capacity * (2 * layout.word) :=
    Nat.le_mul_of_pos_right _ (by omega)
  have sized : layout.chunkSize ≤ layout.capacity * layout.chunkSize :=
    Nat.le_mul_of_pos_left _ positive
  omega

/-- Every number of a queue has room in its place. -/
theorem value_small {queue : Queue (List Byte)} (consistent : Consistent queue)
    (capacity : queue.capacity = layout.capacity)
    (fits : ∀ slot < layout.capacity, (queue.blocks slot).length ≤ layout.chunkSize)
    {place : Place} (numeric : place.numeric = true) (present : layout.Present place) :
    layout.value (queue.map List.length) place < 256 ^ (layout.window place).width := by
  have addressable := layout.addressable
  have area : layout.areaOffset ≤ layout.totalSize := Nat.le_add_right _ _
  have header : layout.blocksOffset ≤ layout.areaOffset := Nat.le_add_right _ _
  have room := word_room (capacity ▸ consistent.positive)
  cases place with
  | field field =>
    cases field with
    | head =>
      have inside := consistent.inside
      exact lt_trans (capacity ▸ inside) room.1
    | tail =>
      have inside := Nat.mod_lt (queue.head + queue.length) consistent.positive
      rw [← consistent.ring] at inside
      exact lt_trans (capacity ▸ inside) room.1
    | capacity =>
      change queue.capacity < 256 ^ layout.word
      rw [capacity]
      exact room.1
    | length => exact lt_of_le_of_lt (capacity ▸ consistent.bounded) room.1
    | chunkSize => exact room.2
    | active =>
      change queue.active.toNat < 256
      cases queue.active <;> decide
    | policy =>
      change queue.policy.code < 256 ^ 4
      cases queue.policy <;> decide
    | blocks =>
      change layout.base + layout.blocksOffset < 256 ^ layout.word
      omega
    | area =>
      change layout.base + layout.areaOffset < 256 ^ layout.word
      omega
  | data slot =>
    have inside := data_inside layout present
    change layout.base + layout.data slot < 256 ^ layout.word
    omega
  | length slot => exact lt_of_le_of_lt (fits slot present) room.2
  | locks | chunk => cases numeric

/-! ### Creation -/

/-- `jp_queue_create` stores every number. -/
theorem created_all {place : Place} (numeric : place.numeric = true)
    (present : layout.Present place) : place ∈ createdPlaces layout.capacity := by
  have entries {slot : Nat} (below : slot < layout.capacity) (other : Place)
      (own : other = .data slot ∨ other = .length slot) :
      other ∈ createdPlaces layout.capacity :=
    List.mem_append_right _ (List.mem_flatMap.mpr
      ⟨slot, List.mem_range.mpr below, by simpa using own⟩)
  cases place with
  | field field => cases field <;> simp [createdPlaces]
  | data slot => exact entries present _ (Or.inl rfl)
  | length slot => exact entries present _ (Or.inr rfl)
  | locks | chunk => cases numeric

/-- `jp_queue_create` stores numbers only, and only at places that are in the allocation.
-/
theorem created_numeric {place : Place} (member : place ∈ createdPlaces layout.capacity) :
    place.numeric = true ∧ layout.Present place := by
  rcases List.mem_append.mp member with header | entry
  · simp only [List.mem_cons, List.not_mem_nil, or_false] at header
    rcases header with rfl | rfl | rfl | rfl | rfl | rfl | rfl | rfl | rfl <;>
      exact ⟨rfl, trivial⟩
  · obtain ⟨slot, among, own⟩ := List.mem_flatMap.mp entry
    have below := List.mem_range.mp among
    simp only [List.mem_cons, List.not_mem_nil, or_false] at own
    rcases own with rfl | rfl <;> exact ⟨rfl, below⟩

/-- The queue created holds empty blocks. -/
theorem create_stored (positive : 0 < layout.capacity) (policy : Policy)
    (memory : Region Byte layout.totalSize) :
    ∃ created, Arena.create policy memory = some created ∧
      LaidOut created (jpQueueCreate layout.capacity policy fun _ => []) := by
  have consistent := create_consistent positive policy fun _ => ([] : List Byte)
  obtain ⟨cells, all, stored⟩ := layout.plan.store_all
    (layout.value (jpQueueCreate layout.capacity policy fun _ => 0)) (createdPlaces layout.capacity)
    memory (fun place member => (created_numeric member).2)
    (fun place member => value_small consistent rfl (fun _ _ => Nat.zero_le _)
      (created_numeric member).1 (created_numeric member).2)
  refine ⟨Arena.over _ cells, by rw [Arena.create, all, Option.map_some], ?_⟩
  constructor
  · intro place numeric present
    exact stored.there place (created_all numeric present)
  · rfl
  · rfl
  · exact fun _ _ => Nat.zero_le _
  · exact fun _ _ => rfl
  · intro slot present
    have inside := data_inside layout present
    rw [Region.read_within _ (by simp [jpQueueCreate]; omega)]
    rfl

/-! ### Steps -/

/-- The places a step of the queue stores to are numbers of `jp_queue_t`. -/
theorem stored_field {label : QueueLabel Empty} {place : Place} (member : place ∈ label.stored) :
    ∃ field, place = .field field := by
  cases label <;> simp only [QueueLabel.stored, List.mem_cons, List.not_mem_nil, or_false] at member
  · rcases member with rfl | rfl <;> exact ⟨_, rfl⟩
  · rcases member with rfl | rfl <;> exact ⟨_, rfl⟩
  · exact ⟨_, member⟩

/-- A step of the queue leaves every number as it was that it does not store. -/
theorem unstored_value {queue next : Queue (List Byte)} {label : QueueLabel Empty}
    (unfilled : Unfilled label queue next) {place : Place} (elsewhere : place ∉ label.stored) :
    layout.value (queue.map List.length) place = layout.value (next.map List.length) place := by
  obtain ⟨blocks, capacity, policy, head, tail, length, active⟩ := unfilled
  cases place with
  | field field =>
    cases field with
    | head =>
      refine (head fun same => elsewhere ?_).symm
      simp [same, QueueLabel.stored]
    | tail =>
      refine (tail fun same => elsewhere ?_).symm
      simp [same, QueueLabel.stored]
    | length =>
      refine (length (fun same => elsewhere ?_) fun same => elsewhere ?_).symm <;>
        simp [same, QueueLabel.stored]
    | active =>
      refine congrArg Bool.toNat (active fun same => elsewhere ?_).symm
      simp [same, QueueLabel.stored]
    | capacity => exact capacity.symm
    | policy => exact congrArg Policy.code policy.symm
    | chunkSize | blocks | area => rfl
  | length slot => exact congrArg (fun blocks => (blocks slot).length) blocks.symm
  | locks | data slot | chunk slot => rfl

/-- A window in a chunk is apart from what is not this chunk. -/
theorem chunk_apart {slot : Nat} {window : Region.Window} (present : slot < layout.capacity)
    (front : layout.data slot ≤ window.position)
    (back : window.position + window.width ≤ layout.data slot + layout.chunkSize) {place : Place}
    (own : layout.Present place) (different : place ≠ .chunk slot) :
    window.Apart (layout.window place) := by
  have chunk : layout.Present (.chunk slot) := present
  have apart := places_apart layout chunk own different.symm
  simp only [Region.Window.Apart, Sizes.window] at apart ⊢
  omega

/-- A step of the queue keeps the contents where they are. -/
theorem queue_stored {arena : Arena layout} {queue next : Queue (List Byte)}
    {label : QueueLabel Empty} (consistent : Consistent queue) (stored : LaidOut arena queue)
    (taken : queue.step label.lift = some next) :
    ∃ after, arena.step (.queue label) = some after ∧ LaidOut after next := by
  have unfilled := step_unfilled taken
  have capacity : next.capacity = layout.capacity := unfilled.capacity.trans stored.capacity
  have fits : ∀ slot < layout.capacity, (next.blocks slot).length ≤ layout.chunkSize :=
    unfilled.blocks ▸ stored.fits
  have present (place : Place) (member : place ∈ label.stored) : layout.Present place := by
    obtain ⟨field, rfl⟩ := stored_field member
    trivial
  have small (place : Place) (member : place ∈ label.stored) :
      layout.value (next.map List.length) place < 256 ^ (layout.window place).width := by
    obtain ⟨field, rfl⟩ := stored_field member
    exact value_small (step_consistent consistent taken) capacity fits rfl trivial
  obtain ⟨cells, all, holds⟩ := layout.plan.store_all (layout.value (next.map List.length))
    label.stored arena.memory present small
  refine ⟨Arena.over (next.map List.length) cells, ?_, ?_, rfl, capacity, fits, ?_, ?_⟩
  · rw [Arena.step, laid_out_queue stored, step_lift, taken, Option.map_some, Option.bind_some,
      all, Option.map_some]
  · intro place numeric own
    refine Region.Plan.stored_load holds present own fun elsewhere => ?_
    rw [← unstored_value unfilled elsewhere]
    exact stored.words place numeric own
  · exact unfilled.blocks ▸ stored.beyond
  · intro slot inside
    have apart (place : Place) (member : place ∈ label.stored) :
        Region.Window.Apart ⟨layout.data slot, (next.blocks slot).length⟩
          (layout.window place) := by
      obtain ⟨field, rfl⟩ := stored_field member
      exact chunk_apart inside (Nat.le_refl _) (Nat.add_le_add_left (fits slot inside) _) trivial
        (by simp)
    have before := stored.content slot inside
    rw [← unfilled.blocks] at before
    exact (holds.elsewhere ⟨layout.data slot, (next.blocks slot).length⟩ apart).trans before

/-- The block held can be filled with anything. -/
theorem fill_held {queue : Queue (List Byte)} {slot : Nat}
    (holds : queue.producer = .holding slot) (content : List Byte) :
    fill queue content =
      some { queue with blocks := Function.update queue.blocks slot content } := by
  rw [fill, holds]

/-- The block held is one of those there are. -/
theorem held_present {arena : Arena layout} {queue : Queue (List Byte)} {slot : Nat}
    (consistent : Consistent queue) (stored : LaidOut arena queue)
    (holds : queue.producer = .holding slot) : slot < layout.capacity := by
  rw [← stored.capacity, (consistent.producing slot holds).1, consistent.ring]
  exact Nat.mod_lt _ consistent.positive

/-- A block has its new content once the bytes of this content stand in its chunk, and
its length is stored.

The bytes of the other blocks and all numbers but this one have to be what they were. -/
theorem filled_stored {arena : Arena layout} {queue : Queue (List Byte)} {slot : Nat}
    {content : List Byte} {filled : Region Byte layout.totalSize}
    (stored : LaidOut arena queue) (present : slot < layout.capacity)
    (room : content.length ≤ layout.chunkSize)
    (words : ∀ place, place.numeric = true → layout.Present place →
      filled.load (layout.window place) = arena.memory.load (layout.window place))
    (others : ∀ other < layout.capacity, other ≠ slot →
      filled.read (layout.data other) (queue.blocks other).length =
        arena.memory.read (layout.data other) (queue.blocks other).length)
    (own : filled.read (layout.data slot) content.length = some content) :
    ∃ cells, filled.store (layout.window (.length slot)) content.length = some cells ∧
      LaidOut { arena with memory := cells }
        { queue with blocks := Function.update queue.blocks slot content } := by
  have there : layout.Present (.length slot) := present
  obtain ⟨cells, done⟩ := Option.isSome_iff_exists.mp ((Region.store_some_iff filled
    (layout.window (.length slot)) content.length).mpr (place_inside layout there))
  have seen {window : Region.Window} (apart : window.Apart (layout.window (.length slot))) :
      cells.read window.position window.width = filled.read window.position window.width :=
    Region.look_apart done apart
  refine ⟨cells, done, ?_, ?_, stored.capacity, ?_, ?_, ?_⟩
  · intro place numeric within
    by_cases same : place = .length slot
    · subst same
      rw [Region.load_stored (lt_of_le_of_lt room (word_room (Nat.zero_lt_of_lt present)).2) done]
      simp [Layout.value, Queue.map]
    · rw [Region.load, Region.look_apart done (places_apart layout within there same), ← Region.load,
        words place numeric within, stored.words place numeric within]
      cases place with
      | length other =>
        have different : other ≠ slot := fun equal => same (congrArg Place.length equal)
        simp [Layout.value, Queue.map, different]
      | field field => cases field <;> rfl
      | _ => rfl
  · exact congrArg (fun points : Arena layout => { points with memory := cells }) stored.points
  · intro place inside
    by_cases same : place = slot
    · subst same
      simpa using room
    · simpa [same] using stored.fits place inside
  · intro place behind
    have different : place ≠ slot := by omega
    simpa [different] using stored.beyond place behind
  · intro place inside
    have apart (size : Nat) (bounded : size ≤ layout.chunkSize) :=
      @chunk_apart layout place ⟨layout.data place, size⟩ inside (Nat.le_refl _)
        (Nat.add_le_add_left bounded _) (.length slot) there (by simp)
    by_cases same : place = slot
    · subst same
      simp only [Function.update_self]
      exact (seen (apart _ room)).trans own
    · simp only [ne_eq, same, not_false_eq_true, Function.update_of_ne]
      rw [seen (apart _ (stored.fits place inside)), others place inside same]
      exact stored.content place inside

/-- What `read` gives has its place in the block held. -/
theorem store_stored {arena : Arena layout} {queue next : Queue (List Byte)} {bytes : List Byte}
    {slot : Nat} (consistent : Consistent queue) (stored : LaidOut arena queue)
    (holds : queue.producer = .holding slot)
    (room : (queue.blocks slot).length + bytes.length ≤ layout.chunkSize)
    (taken : fill queue (queue.blocks slot ++ bytes) = some next) :
    ∃ after, arena.step (.store bytes) = some after ∧ LaidOut after next := by
  have present := held_present consistent stored holds
  have inside := data_inside layout present
  obtain ⟨filled, written⟩ := Option.isSome_iff_exists.mp ((Region.write_some_iff arena.memory
    (layout.data slot + (queue.blocks slot).length) bytes).mpr (by omega))
  have apart {place : Place} (own : layout.Present place) (different : place ≠ .chunk slot) :
      filled.look (layout.window place) = arena.memory.look (layout.window place) :=
    Region.read_apart written (Region.apart_symm (@chunk_apart layout slot
      ⟨layout.data slot + (queue.blocks slot).length, bytes.length⟩ present (Nat.le_add_right _ _)
      (by simp only; omega) place own different))
  have words (place : Place) (numeric : place.numeric = true) (own : layout.Present place) :
      filled.load (layout.window place) = arena.memory.load (layout.window place) := by
    rw [Region.load, Region.load, apart own]
    rintro rfl
    cases numeric
  have others (other : Nat) (within : other < layout.capacity) (different : other ≠ slot) :
      filled.read (layout.data other) (queue.blocks other).length =
        arena.memory.read (layout.data other) (queue.blocks other).length := by
    -- The block written to lies in a tile of its own.
    have fits := stored.fits other within
    have tiles : layout.data other + layout.chunkSize ≤ layout.data slot ∨
        layout.data slot + layout.chunkSize ≤ layout.data other := Region.tiles_apart different
    exact Region.read_apart written (by omega)
  have own : filled.read (layout.data slot) (queue.blocks slot ++ bytes).length =
      some (queue.blocks slot ++ bytes) := by
    apply Region.read_append
    · rw [Region.read_apart written (Or.inl (Nat.le_refl _))]
      exact stored.content slot present
    · exact Region.read_written written
  obtain ⟨cells, done, kept⟩ := filled_stored stored present
    (List.length_append ▸ room) words others own
  rw [fill_held holds] at taken
  refine ⟨_, ?_, Option.some.inj taken ▸ kept⟩
  have there : layout.Present (.data slot) := present
  have pointer : arena.load (.data slot) = layout.base + layout.data slot :=
    laid_out_load stored rfl there
  rw [List.length_append] at done
  simp only [Arena.step, laid_out_producer stored, holds, laid_out_length stored present]
  rw [if_pos (by omega), pointer, Region.distance_of_le (Nat.le_add_right _ _),
    Nat.add_sub_cancel_left, Option.bind_some, written, Option.bind_some, done, Option.map_some]

/-- `block->length = 0` empties the block held. -/
theorem clear_stored {arena : Arena layout} {queue next : Queue (List Byte)}
    (consistent : Consistent queue) (stored : LaidOut arena queue)
    (taken : fill queue [] = some next) :
    ∃ after, arena.step .clear = some after ∧ LaidOut after next := by
  obtain ⟨slot, holds, rfl⟩ := fill_cases taken
  have present := held_present consistent stored holds
  have inside := data_inside layout present
  have nothing : arena.memory.read (layout.data slot) ([] : List Byte).length = some [] := by
    rw [Region.read_within _ (by rw [List.length_nil]; omega)]
    rfl
  obtain ⟨cells, done, kept⟩ := filled_stored stored present (Nat.zero_le _) (fun _ _ _ => rfl)
    (fun _ _ _ => rfl) nothing
  refine ⟨_, ?_, kept⟩
  simp only [Arena.step, laid_out_producer stored, holds]
  rw [← List.length_nil, done, Option.map_some]

/-- An allocation for one block of four bytes, with words of two bytes. -/
def smallSizes : Sizes where
  word := 2
  locks := 0
  base := 0
  capacity := 1
  chunkSize := 4

theorem small_narrow : 2 * smallSizes.word ≤ 64 := by decide

theorem small_addressable : smallSizes.base + smallSizes.totalSize < 256 ^ smallSizes.word := by
  decide

/-- The layout of that allocation: 448 bytes of `jp_queue_t`, one entry of four and one
chunk of four. -/
def smallLayout : Layout := ⟨smallSizes, small_narrow, small_addressable⟩

end Allocation

end JPipe
