import Mathlib.Data.List.Basic
import Mathlib.Data.List.Induction
import Mathlib.Data.Nat.Basic

/-!
# Cutting a stream into bounded pieces at a delimiter

A stream of items is cut into pieces at each delimiter, and a piece that has
grown to the capacity is cut before the next item joins it. The items of the
unfinished piece are held. At some places the stream is interrupted: there a
held piece that is exactly full is given up at once instead of waiting for the
item after it. The places are marks on the items they follow.

Everything is held or given up in order, so the pieces and what is held at the
end are the stream without its delimiters. Interrupting matters only where a
piece is full and nothing more of its line follows: there it turns the end of
the line into one more, empty, piece, or gives up what would have been held.
Two ways of interrupting one stream give the same pieces exactly when they agree
at these places.
-/

namespace Cutting

universe u
variable {α : Type u}

/-- At an interruption a full piece is given up. -/
def settle (cap : Nat) (interrupted : Bool) (held : List α) : List (List α) × List α :=
  if interrupted = true ∧ held.length = cap then ([held], []) else ([], held)

/-- The held piece after `count` items of a line: none of them at the start of
the line, else what is left above the last multiple of the capacity, where a
full piece may have been given up. -/
structure Holds (cap count : Nat) (held : List α) : Prop where
  start : count = 0 → held = []
  full : count ≠ 0 → cap ∣ count → held = [] ∨ held.length = cap
  between : ¬ cap ∣ count → held.length = count % cap

/-- At the start of a stream nothing is held. -/
theorem holds_start (cap : Nat) : Holds cap 0 ([] : List α) :=
  ⟨fun _ => rfl, fun wrong => absurd rfl wrong, fun apart => absurd (Nat.dvd_zero cap) apart⟩

/-- Counting one more either completes a multiple of the capacity or moves the
remainder up by one. -/
theorem next_remainder {cap : Nat} (positive : 0 < cap) (count : Nat) :
    (count % cap + 1 = cap ∧ cap ∣ count + 1) ∨
      (count % cap + 1 < cap ∧ ¬ cap ∣ count + 1 ∧ (count + 1) % cap = count % cap + 1) := by
  have bound : count % cap < cap := Nat.mod_lt count positive
  have parts : count + 1 = cap * (count / cap) + (count % cap + 1) := by
    have whole := Nat.div_add_mod count cap
    omega
  rcases Nat.lt_or_eq_of_le (Nat.succ_le_of_lt bound) with below | complete
  · have remainder : (count + 1) % cap = count % cap + 1 := by
      rw [parts, Nat.mul_add_mod]
      exact Nat.mod_eq_of_lt below
    refine Or.inr ⟨below, ?_, remainder⟩
    rw [Nat.dvd_iff_mod_eq_zero, remainder]
    omega
  · refine Or.inl ⟨complete, count / cap + 1, ?_⟩
    rw [parts, show count % cap + 1 = cap from complete, Nat.mul_succ]

/-- An interruption keeps the held piece in step with the line. -/
theorem settle_holds {cap count : Nat} (positive : 0 < cap) {held : List α}
    (holds : Holds cap count held) (interrupted : Bool) :
    Holds cap count (settle cap interrupted held).2 := by
  unfold settle
  split
  · rename_i given
    refine ⟨fun _ => rfl, fun _ _ => Or.inl rfl, fun apart => ?_⟩
    have partway : held.length = count % cap := holds.between apart
    have bound : count % cap < cap := Nat.mod_lt count positive
    omega
  · exact holds

/-- A held piece that is not full passes an interruption unchanged. -/
theorem settle_partway {cap : Nat} {held : List α} (partway : ¬ held.length = cap)
    (interrupted : Bool) : settle cap interrupted held = ([], held) := by
  simp [settle, partway]

variable [DecidableEq α]

/-- Take one item: a delimiter ends the held piece, and a full piece ends before
any other item. -/
def accept (cap : Nat) (delimiter : α) (held : List α) (item : α) : List (List α) × List α :=
  if item = delimiter then ([held], [])
  else if held.length = cap then ([held], [item])
  else ([], held ++ [item])

/-- Take the marked items in order, collecting the pieces given up; the second
component is the piece still held. -/
def feed (cap : Nat) (delimiter : α) : List α → List (α × Bool) → List (List α) × List α
  | held, [] => ([], held)
  | held, (item, interrupted) :: rest =>
    let taken := accept cap delimiter held item
    let settled := settle cap interrupted taken.2
    let following := feed cap delimiter settled.2 rest
    (taken.1 ++ settled.1 ++ following.1, following.2)

/-- Feeding a concatenation is feeding its parts in turn. -/
theorem feed_append (cap : Nat) (delimiter : α) (held : List α) (first second : List (α × Bool)) :
    feed cap delimiter held (first ++ second) =
      ((feed cap delimiter held first).1 ++
          (feed cap delimiter (feed cap delimiter held first).2 second).1,
        (feed cap delimiter (feed cap delimiter held first).2 second).2) := by
  induction first generalizing held with
  | nil => simp [feed]
  | cons marked rest ih => simp [feed, ih]

/-- Nothing is lost, duplicated or reordered: the pieces and the held items are
the items taken, without the delimiters. -/
theorem feed_conserves (cap : Nat) (delimiter : α) (held : List α) (marked : List (α × Bool)) :
    (feed cap delimiter held marked).1.flatten ++ (feed cap delimiter held marked).2 =
      held ++ (marked.map Prod.fst).filter (· ≠ delimiter) := by
  induction marked generalizing held with
  | nil => simp [feed]
  | cons first rest ih =>
    obtain ⟨item, interrupted⟩ := first
    have one (kept : List α) : (settle cap interrupted kept).1.flatten ++
        (settle cap interrupted kept).2 = kept := by
      unfold settle
      split <;> simp
    have taken : (accept cap delimiter held item).1.flatten ++ (accept cap delimiter held item).2 =
        held ++ [item].filter (· ≠ delimiter) := by
      unfold accept
      split
      · simp [*]
      · split <;> simp [*]
    simp only [feed, List.flatten_append, List.append_assoc, ih, List.map_cons]
    rw [← List.append_assoc (settle cap interrupted _).1.flatten, one, ← List.append_assoc, taken,
      List.append_assoc, ← List.filter_append, List.singleton_append]

/-- How many items of the current line have been taken, `count` of them before. -/
def sinceDelimiter (delimiter : α) : Nat → List α → Nat
  | count, [] => count
  | count, item :: rest =>
    if item = delimiter then sinceDelimiter delimiter 0 rest
    else sinceDelimiter delimiter (count + 1) rest

theorem since_delimiter_append (delimiter : α) (count : Nat) (first second : List α) :
    sinceDelimiter delimiter count (first ++ second) =
      sinceDelimiter delimiter (sinceDelimiter delimiter count first) second := by
  induction first generalizing count with
  | nil => rfl
  | cons item rest ih =>
    simp only [List.cons_append, sinceDelimiter]
    split
    · exact ih 0
    · exact ih (count + 1)

/-- At the end of a stream the count is the length of what stands after its last
delimiter. -/
theorem since_delimiter_eq (delimiter : α) (stream : List α) :
    sinceDelimiter delimiter 0 stream =
      (stream.reverse.takeWhile (fun item => decide (item ≠ delimiter))).length := by
  induction stream using List.reverseRecOn with
  | nil => rfl
  | append_singleton front last ih =>
    rw [since_delimiter_append, List.reverse_append, List.reverse_singleton, List.singleton_append,
      List.takeWhile_cons]
    by_cases ends : last = delimiter
    · simp [sinceDelimiter, ends]
    · simp [sinceDelimiter, ends, ih]

/-- The count of the current line after one more item. -/
def countAfter (delimiter : α) (count : Nat) (item : α) : Nat :=
  if item = delimiter then 0 else count + 1

/-- An item that is no delimiter brings the held piece one above the remainder. -/
theorem accept_length {cap count : Nat} (positive : 0 < cap) {delimiter item : α} {held : List α}
    (holds : Holds cap count held) (other : item ≠ delimiter) :
    (accept cap delimiter held item).2.length = count % cap + 1 := by
  have room : ¬ 0 = cap := by omega
  by_cases multiple : cap ∣ count
  · have remainder : count % cap = 0 := Nat.mod_eq_zero_of_dvd multiple
    have emptyOrFull : held = [] ∨ held.length = cap := by
      by_cases none : count = 0
      · exact Or.inl (holds.start none)
      · exact holds.full none multiple
    rcases emptyOrFull with empty | full
    · simp [accept, other, empty, room, remainder]
    · simp [accept, other, full, remainder]
  · have partway : held.length = count % cap := holds.between multiple
    have bound : count % cap < cap := Nat.mod_lt count positive
    have below : ¬ held.length = cap := by omega
    rw [accept, if_neg other, if_neg below, List.length_append, List.length_singleton, partway]

/-- Taking an item keeps the length of the held piece in step with the line, and
leaves it full exactly at a positive multiple of the capacity. -/
theorem accept_holds {cap count : Nat} (positive : 0 < cap) (delimiter : α) {held : List α}
    (holds : Holds cap count held) (item : α) :
    Holds cap (countAfter delimiter count item) (accept cap delimiter held item).2 ∧
      ((accept cap delimiter held item).2 = [] ↔ countAfter delimiter count item = 0) ∧
      ((accept cap delimiter held item).2.length = cap ↔
        countAfter delimiter count item ≠ 0 ∧ cap ∣ countAfter delimiter count item) := by
  by_cases ends : item = delimiter
  · have capacity : ¬ 0 = cap := by omega
    have counted : countAfter delimiter count item = 0 := by simp [countAfter, ends]
    have none : (accept cap delimiter held item).2 = [] := by simp [accept, ends]
    rw [counted, none]
    refine ⟨⟨fun _ => rfl, ?_, ?_⟩, by simp, by simp [capacity]⟩
    · intro wrong
      exact absurd rfl wrong
    · intro apart
      exact absurd (Nat.dvd_zero cap) apart
  · have counted : countAfter delimiter count item = count + 1 := by simp [countAfter, ends]
    have length := accept_length positive holds ends
    have nonempty : (accept cap delimiter held item).2 ≠ [] := by
      intro empty
      rw [empty] at length
      simp at length
    rw [counted]
    rcases next_remainder positive count with ⟨complete, multiple⟩ | ⟨below, apart, remainder⟩
    · refine ⟨⟨?_, ?_, ?_⟩, by simp [nonempty], by simp [length, complete, multiple]⟩
      · intro none
        exact absurd none (Nat.succ_ne_zero count)
      · intro _ _
        exact Or.inr (length.trans complete)
      · intro wrong
        exact absurd multiple wrong
    · have differ : ¬ count % cap + 1 = cap := by omega
      refine ⟨⟨?_, ?_, ?_⟩, by simp [nonempty], by simp [length, differ, apart]⟩
      · intro none
        exact absurd none (Nat.succ_ne_zero count)
      · intro _ wrong
        exact absurd wrong apart
      · intro _
        exact length.trans remainder.symm

/-- Feeding keeps the held piece in step with the line. -/
theorem feed_holds {cap : Nat} (positive : 0 < cap) (delimiter : α) {count : Nat} {held : List α}
    (holds : Holds cap count held) (marked : List (α × Bool)) :
    Holds cap (sinceDelimiter delimiter count (marked.map Prod.fst))
      (feed cap delimiter held marked).2 := by
  induction marked generalizing count held with
  | nil => exact holds
  | cons first rest ih =>
    obtain ⟨item, interrupted⟩ := first
    have taken := (accept_holds positive delimiter holds item).1
    have following := ih (settle_holds positive taken interrupted)
    have counted : sinceDelimiter delimiter count (item :: rest.map Prod.fst) =
        sinceDelimiter delimiter (countAfter delimiter count item) (rest.map Prod.fst) := by
      simp only [sinceDelimiter, countAfter]
      split <;> rfl
    rw [List.map_cons, counted]
    exact following

/-- After a marked stream that ends with `last`, nothing is held exactly at the
start of a line, or after a positive multiple of the capacity when the stream
was interrupted there. -/
theorem feed_empty_iff {cap : Nat} (positive : 0 < cap) (delimiter : α)
    (marked : List (α × Bool)) (last : α) (interrupted : Bool) :
    (feed cap delimiter [] (marked ++ [(last, interrupted)])).2 = [] ↔
      sinceDelimiter delimiter 0 (marked.map Prod.fst ++ [last]) = 0 ∨
        cap ∣ sinceDelimiter delimiter 0 (marked.map Prod.fst ++ [last]) ∧ interrupted = true := by
  have before := feed_holds positive delimiter (holds_start cap) marked
  obtain ⟨_, empty, full⟩ := accept_holds positive delimiter before last
  have counted : sinceDelimiter delimiter 0 (marked.map Prod.fst ++ [last]) =
      countAfter delimiter (sinceDelimiter delimiter 0 (marked.map Prod.fst)) last := by
    rw [since_delimiter_append]
    simp only [sinceDelimiter, countAfter]
  rw [feed_append, counted]
  simp only [feed, settle]
  by_cases given : interrupted = true ∧
      (accept cap delimiter (feed cap delimiter [] marked).2 last).2.length = cap
  · have reached := full.mp given.2
    simp [given, reached]
  · simp only [given, ↓reduceIte, empty]
    constructor
    · exact Or.inl
    · rintro (none | ⟨multiple, marks⟩)
      · exact none
      · by_contra some
        exact given ⟨marks, full.mpr ⟨some, multiple⟩⟩

/-! ### Two ways of interrupting one stream -/

/-- The place after `place` items is where a line ends or the stream does, and
the line has there a positive multiple of the capacity. -/
def FullEnd (cap : Nat) (delimiter : α) (count : Nat) (stream : List α) (place : Nat) : Prop :=
  place ≤ stream.length ∧ (stream[place]? = none ∨ stream[place]? = some delimiter) ∧
    sinceDelimiter delimiter count (stream.take place) ≠ 0 ∧
    cap ∣ sinceDelimiter delimiter count (stream.take place)

instance (cap : Nat) (delimiter : α) (count : Nat) (stream : List α) (place : Nat) :
    Decidable (FullEnd cap delimiter count stream place) :=
  inferInstanceAs (Decidable (_ ∧ (_ ∨ _) ∧ _ ∧ _))

/-- Two marked streams interrupt alike wherever a full line ends. -/
def Agree (cap : Nat) (delimiter : α) (count : Nat) (first second : List (α × Bool)) : Prop :=
  ∀ place, FullEnd cap delimiter count (first.map Prod.fst) (place + 1) →
    (first.map Prod.snd)[place]? = (second.map Prod.snd)[place]?

theorem since_delimiter_cons (delimiter : α) (count : Nat) (item : α) (rest : List α) :
    sinceDelimiter delimiter count (item :: rest) =
      sinceDelimiter delimiter (countAfter delimiter count item) rest := by
  simp only [sinceDelimiter, countAfter]
  split <;> rfl

/-- Agreement is agreement after the first item, if a full line ends there, and
agreement of what follows. -/
theorem agree_cons_iff (cap : Nat) (delimiter : α) (count : Nat) (item : α) (left right : Bool)
    (first second : List (α × Bool)) :
    Agree cap delimiter count ((item, left) :: first) ((item, right) :: second) ↔
      (FullEnd cap delimiter (countAfter delimiter count item) (first.map Prod.fst) 0 →
          left = right) ∧
        Agree cap delimiter (countAfter delimiter count item) first second := by
  have shifted (place : Nat) :
      FullEnd cap delimiter count (item :: first.map Prod.fst) (place + 1) ↔
        FullEnd cap delimiter (countAfter delimiter count item) (first.map Prod.fst) place := by
    simp [FullEnd, since_delimiter_cons]
  constructor
  · intro agree
    refine ⟨fun ends => ?_, fun place ends => ?_⟩
    · simpa using agree 0 ((shifted 0).mpr ends)
    · simpa using agree (place + 1) ((shifted (place + 1)).mpr ends)
  · rintro ⟨here, later⟩ place ends
    cases place with
    | zero => simpa using here ((shifted 0).mp ends)
    | succ place => simpa using later place ((shifted (place + 1)).mp ends)

/-- A full held piece that meets an item of its own line is given up, and the
item starts the next piece. -/
theorem feed_full {cap : Nat} (positive : 0 < cap) (delimiter : α) {held : List α}
    (full : held.length = cap) {item : α} (other : item ≠ delimiter) (interrupted : Bool)
    (rest : List (α × Bool)) :
    feed cap delimiter held ((item, interrupted) :: rest) =
      (held :: (feed cap delimiter [] ((item, interrupted) :: rest)).1,
        (feed cap delimiter [] ((item, interrupted) :: rest)).2) := by
  have room : ¬ 0 = cap := by omega
  simp [feed, accept, other, full, room]

/-- The first piece given up after something is held is not empty. -/
theorem first_piece_nonempty {cap : Nat} (delimiter : α) (held : List α)
    (nonempty : held ≠ []) (marked : List (α × Bool)) :
    (feed cap delimiter held marked).1.head? ≠ some [] := by
  induction marked generalizing held with
  | nil => simp [feed]
  | cons first rest ih =>
    obtain ⟨item, interrupted⟩ := first
    simp only [feed]
    by_cases ends : item = delimiter
    · simp [accept, ends, nonempty]
    · by_cases full : held.length = cap
      · simp [accept, ends, full, nonempty]
      · have grown : held ++ [item] ≠ [] := by simp
        simp only [accept, ends, full, ↓reduceIte, List.nil_append, settle]
        split
        · simp
        · simpa using ih (held ++ [item]) grown

/-- From the start of a line, an empty piece in front cannot be made up for by
any way of interrupting the rest of the stream. -/
theorem extra_piece_differs {cap : Nat} (positive : 0 < cap) (delimiter : α)
    (first second : List (α × Bool)) (same : first.map Prod.fst = second.map Prod.fst) :
    [] :: (feed cap delimiter [] first).1 ≠ (feed cap delimiter [] second).1 := by
  have room : ¬ 0 = cap := by omega
  induction first generalizing second with
  | nil =>
    obtain rfl : second = [] := by simpa using same.symm
    simp [feed]
  | cons marked rest ih =>
    obtain ⟨item, left⟩ := marked
    cases second with
    | nil => simp at same
    | cons marked others =>
      obtain ⟨item', right⟩ := marked
      simp only [List.map_cons, List.cons.injEq] at same
      obtain ⟨rfl, same⟩ := same
      by_cases ends : item = delimiter
      · have following := ih others same
        simpa [feed, accept, settle, ends, room] using following
      · intro equal
        have heads := congrArg List.head? equal
        have nonempty : ([item] : List α) ≠ [] := by simp
        simp only [List.head?_cons, feed, accept, ends, ↓reduceIte, List.length_nil, room,
          List.nil_append, settle] at heads
        split at heads
        · simp at heads
        · exact first_piece_nonempty delimiter [item] nonempty others (by simpa using heads.symm)

/-- At a place where a piece is full, one stream is interrupted and the other is
not: from there on they give the same pieces exactly when the line goes on there
and they give the same pieces with nothing held. -/
theorem settled_pieces_iff {cap : Nat} (positive : 0 < cap) (delimiter : α) (held : List α)
    (full : held.length = cap) (first second : List (α × Bool))
    (same : first.map Prod.fst = second.map Prod.fst) :
    held :: (feed cap delimiter [] first).1 = (feed cap delimiter held second).1 ↔
      ((first.map Prod.fst)[0]? ≠ none ∧ (first.map Prod.fst)[0]? ≠ some delimiter) ∧
        (feed cap delimiter [] first).1 = (feed cap delimiter [] second).1 := by
  cases first with
  | nil =>
    obtain rfl : second = [] := by simpa using same.symm
    simp [feed]
  | cons marked rest =>
    obtain ⟨item, left⟩ := marked
    cases second with
    | nil => simp at same
    | cons marked others =>
      obtain ⟨item', right⟩ := marked
      simp only [List.map_cons, List.cons.injEq] at same
      obtain ⟨rfl, same⟩ := same
      by_cases ends : item = delimiter
      · have room : ¬ 0 = cap := by omega
        have extra := extra_piece_differs positive delimiter rest others same
        simpa [feed, accept, settle, ends, room] using extra
      · rw [feed_full positive delimiter full ends right others]
        simp [ends]

/-- Two ways of interrupting one stream give the same pieces exactly when they
agree wherever a full line ends.

Induct over the stream. An item that leaves no full piece makes both alike, and
so does a full one where they agree. Where they differ on a full piece, the
extra piece can only be made up for if the line goes on. -/
theorem pieces_eq_iff {cap : Nat} (positive : 0 < cap) (delimiter : α)
    (first second : List (α × Bool)) (same : first.map Prod.fst = second.map Prod.fst)
    (count : Nat) (held : List α) (holds : Holds cap count held) :
    (feed cap delimiter held first).1 = (feed cap delimiter held second).1 ↔
      Agree cap delimiter count first second := by
  induction first generalizing second count held with
  | nil =>
    obtain rfl : second = [] := by simpa using same.symm
    simp [Agree]
  | cons marked rest ih =>
    obtain ⟨item, left⟩ := marked
    cases second with
    | nil => simp at same
    | cons marked others =>
      obtain ⟨item', right⟩ := marked
      simp only [List.map_cons, List.cons.injEq] at same
      obtain ⟨rfl, same⟩ := same
      obtain ⟨taken, _, reached⟩ := accept_holds positive delimiter holds item
      have drained := settle_holds positive taken true
      rw [agree_cons_iff]
      simp only [feed, List.append_assoc, List.append_cancel_left_eq]
      by_cases alike : left = right
      · subst alike
        rw [List.append_cancel_left_eq, ih others same _ _ (settle_holds positive taken left)]
        simp
      · by_cases full : (accept cap delimiter held item).2.length = cap
        · have ends : FullEnd cap delimiter (countAfter delimiter count item)
                (rest.map Prod.fst) 0 ↔
              ((rest.map Prod.fst)[0]? = none ∨ (rest.map Prod.fst)[0]? = some delimiter) := by
            simp [FullEnd, sinceDelimiter, reached.mp full]
          have emptied : settle cap true (accept cap delimiter held item).2 =
              ([(accept cap delimiter held item).2], []) := by simp [settle, full]
          have waiting : settle cap false (accept cap delimiter held item).2 =
              ([], (accept cap delimiter held item).2) := by simp [settle]
          rw [emptied] at drained
          have following := ih others same _ _ drained
          rw [ends, imp_iff_not alike, not_or, ← following]
          cases left with
          | true =>
            obtain rfl : right = false := by simpa using alike
            rw [emptied, waiting]
            exact settled_pieces_iff positive delimiter _ full rest others same
          | false =>
            obtain rfl : right = true := by simpa using alike
            rw [emptied, waiting, eq_comm, @eq_comm _ (feed cap delimiter [] rest).1, same]
            exact settled_pieces_iff positive delimiter _ full others rest same.symm
        · have apart : ¬ FullEnd cap delimiter (countAfter delimiter count item)
              (rest.map Prod.fst) 0 := by
            rintro ⟨_, _, some, multiple⟩
            exact full (reached.mpr ⟨some, multiple⟩)
          rw [settle_partway full, settle_partway full]
          simpa [apart] using ih others same _ _ taken

/-! ### A stream that arrives in blocks -/

/-- The items of one block, interrupted after the last of them if at all. -/
def markLast (interrupted : Bool) : List α → List (α × Bool)
  | [] => []
  | [item] => [(item, interrupted)]
  | item :: next :: rest => (item, false) :: markLast interrupted (next :: rest)

/-- The blocks in order, interrupted after each one shorter than the capacity. -/
def markBlocks (cap : Nat) (blocks : List (List α)) : List (α × Bool) :=
  blocks.flatMap (fun block => markLast (block.length < cap) block)

/-- A block shorter than the capacity ends after `place` items. -/
def EndsEarly (cap : Nat) (blocks : List (List α)) (place : Nat) : Prop :=
  ∃ before block after, blocks = before ++ block :: after ∧ block.length < cap ∧
    (before ++ [block]).flatten.length = place

omit [DecidableEq α] in
@[simp] theorem mark_last_items (interrupted : Bool) (block : List α) :
    (markLast interrupted block).map Prod.fst = block := by
  fun_induction markLast interrupted block with
  | case1 => rfl
  | case2 item => rfl
  | case3 item next rest ih => rw [List.map_cons, ih]

omit [DecidableEq α] in
@[simp] theorem mark_blocks_items (cap : Nat) (blocks : List (List α)) :
    (markBlocks cap blocks).map Prod.fst = blocks.flatten := by
  simp [markBlocks, List.map_flatMap, List.flatMap_id']

omit [DecidableEq α] in
/-- Only the last item of a block is marked. -/
theorem mark_last_append (interrupted : Bool) (leading : List α) (item : α) (rest : List α) :
    markLast interrupted (leading ++ item :: rest) =
      leading.map (fun item => (item, false)) ++ markLast interrupted (item :: rest) := by
  induction leading with
  | nil => rfl
  | cons first leading ih =>
    cases leading with
    | nil => rfl
    | cons second leading => simpa [markLast] using ih

omit [DecidableEq α] in
/-- A block that does not interrupt has no marks. -/
theorem mark_last_quiet (block : List α) :
    markLast false block = block.map (fun item => (item, false)) := by
  rcases block.eq_nil_or_concat' with rfl | ⟨leading, last, rfl⟩
  · rfl
  · simp [mark_last_append, markLast]

omit [DecidableEq α] in
/-- After the first block the places of the others are shifted by its length. -/
theorem ends_early_cons_iff (cap : Nat) (block : List α) (rest : List (List α)) (place : Nat) :
    EndsEarly cap (block :: rest) place ↔
      (block.length < cap ∧ block.length = place) ∨
        ∃ later, EndsEarly cap rest later ∧ block.length + later = place := by
  constructor
  · rintro ⟨before, ending, after, split, short, reached⟩
    cases before with
    | nil =>
      simp only [List.nil_append, List.cons.injEq] at split
      obtain ⟨rfl, rfl⟩ := split
      exact Or.inl ⟨short, by simpa using reached⟩
    | cons first before =>
      simp only [List.cons_append, List.cons.injEq] at split
      obtain ⟨rfl, rfl⟩ := split
      exact Or.inr ⟨_, ⟨before, ending, after, rfl, short, rfl⟩, by simpa using reached⟩
  · rintro (⟨short, reached⟩ | ⟨later, ⟨before, ending, after, rfl, short, rfl⟩, reached⟩)
    · exact ⟨[], block, rest, rfl, short, by simpa using reached⟩
    · exact ⟨block :: before, ending, after, rfl, short, by simpa using reached⟩

omit [DecidableEq α] in
/-- The marks of nonempty blocks stand where a short block ends. -/
theorem mark_blocks_iff (cap : Nat) (blocks : List (List α))
    (nonempty : ∀ block ∈ blocks, block ≠ []) (place : Nat) :
    ((markBlocks cap blocks).map Prod.snd)[place]? = some true ↔
      EndsEarly cap blocks (place + 1) := by
  induction blocks generalizing place with
  | nil => simp [markBlocks, EndsEarly]
  | cons block rest ih =>
    have following := ih (fun other member => nonempty other (List.mem_cons_of_mem block member))
    have filled := nonempty block List.mem_cons_self
    have later : EndsEarly cap rest 0 → False := by
      rintro ⟨before, ending, after, rfl, _, reached⟩
      have none := nonempty ending (by simp)
      simp only [List.flatten_append, List.flatten_cons, List.flatten_nil, List.append_nil,
        List.length_append, Nat.add_eq_zero_iff, List.length_eq_zero_iff] at reached
      exact none reached.2
    obtain ⟨leading, last, rfl⟩ := block.eq_nil_or_concat'.resolve_left filled
    have split : (markBlocks cap ((leading ++ [last]) :: rest)).map Prod.snd =
        leading.map (fun _ => false) ++ decide ((leading ++ [last]).length < cap) ::
          (markBlocks cap rest).map Prod.snd := by
      simp [markBlocks, mark_last_append, markLast, Function.comp_def]
    rw [split, ends_early_cons_iff, List.length_append, List.length_singleton]
    rcases Nat.lt_trichotomy place leading.length with inside | behind | beyond
    · rw [List.getElem?_append_left (by simpa using inside)]
      have unmarked : (leading.map (fun _ => false))[place]? = some false := by simp [inside]
      rw [unmarked]
      constructor
      · simp
      · rintro (⟨_, reached⟩ | ⟨after, _, reached⟩) <;> omega
    · subst behind
      simp only [List.getElem?_append_right, List.length_map, Nat.le_refl, Nat.sub_self,
        List.getElem?_cons_zero, Option.some.injEq, decide_eq_true_eq, and_true]
      constructor
      · exact Or.inl
      · rintro (short | ⟨after, ends, reached⟩)
        · exact short
        · obtain rfl : after = 0 := by omega
          exact absurd ends later
    · obtain ⟨offset, rfl⟩ : ∃ offset, place = leading.length + (offset + 1) :=
        ⟨place - leading.length - 1, by omega⟩
      rw [List.getElem?_append_right (by simp), List.length_map, Nat.add_sub_cancel_left,
        List.getElem?_cons_succ, following]
      constructor
      · intro ends
        exact Or.inr ⟨offset + 1, ends, by omega⟩
      · rintro (⟨_, reached⟩ | ⟨after, ends, reached⟩)
        · omega
        · obtain rfl : after = offset + 1 := by omega
          exact ends

/-- Two cuts of one stream into nonempty blocks agree when short blocks end
alike wherever a full line ends. -/
theorem agree_blocks_iff (cap : Nat) (delimiter : α) (first second : List (List α))
    (nonempty : ∀ block ∈ first ++ second, block ≠ [])
    (same : first.flatten = second.flatten) :
    Agree cap delimiter 0 (markBlocks cap first) (markBlocks cap second) ↔
      ∀ place, FullEnd cap delimiter 0 first.flatten place →
        (EndsEarly cap first place ↔ EndsEarly cap second place) := by
  have marks (place : Nat) (inside : place < first.flatten.length) :
      ((markBlocks cap first).map Prod.snd)[place]? =
          ((markBlocks cap second).map Prod.snd)[place]? ↔
        (EndsEarly cap first (place + 1) ↔ EndsEarly cap second (place + 1)) := by
    rw [← mark_blocks_iff cap first (fun block member => nonempty block (by simp [member])),
      ← mark_blocks_iff cap second (fun block member => nonempty block (by simp [member]))]
    have leftSize : ((markBlocks cap first).map Prod.snd).length = first.flatten.length := by
      rw [List.length_map, ← List.length_map Prod.fst, mark_blocks_items]
    have rightSize : ((markBlocks cap second).map Prod.snd).length = first.flatten.length := by
      rw [List.length_map, ← List.length_map Prod.fst, mark_blocks_items, same]
    rw [List.getElem?_eq_getElem (leftSize ▸ inside), List.getElem?_eq_getElem (rightSize ▸ inside)]
    generalize ((markBlocks cap first).map Prod.snd)[place] = left
    generalize ((markBlocks cap second).map Prod.snd)[place] = right
    cases left <;> cases right <;> simp
  simp only [Agree, mark_blocks_items]
  constructor
  · intro agree place ends
    cases place with
    | zero =>
      have counted := ends.2.2.1
      exact absurd rfl counted
    | succ place => exact (marks place ends.1).mp (agree place ends)
  · intro alike place ends
    exact (marks place ends.1).mpr (alike (place + 1) ends)

/-- Nothing is held after the blocks exactly when the stream ends at the start
of a line, or after a positive multiple of the capacity in a short block. -/
theorem blocks_drained_iff {cap : Nat} (positive : 0 < cap) (delimiter : α)
    (blocks : List (List α)) (nonempty : ∀ block ∈ blocks, block ≠ []) :
    (feed cap delimiter [] (markBlocks cap blocks)).2 = [] ↔
      sinceDelimiter delimiter 0 blocks.flatten = 0 ∨
        cap ∣ sinceDelimiter delimiter 0 blocks.flatten ∧
          ∃ block ∈ blocks.getLast?, block.length < cap := by
  rcases blocks.eq_nil_or_concat' with rfl | ⟨before, block, rfl⟩
  · simp [markBlocks, feed, sinceDelimiter]
  · have filled := nonempty block (by simp)
    obtain ⟨leading, last, rfl⟩ := block.eq_nil_or_concat'.resolve_left filled
    have split : markBlocks cap (before ++ [leading ++ [last]]) =
        (markBlocks cap before ++ leading.map (fun item => (item, false))) ++
          [(last, decide ((leading ++ [last]).length < cap))] := by
      simp [markBlocks, mark_last_append, markLast]
    have stream : (markBlocks cap before ++ leading.map (fun item => (item, false))).map Prod.fst ++
        [last] = (before ++ [leading ++ [last]]).flatten := by
      simp [Function.comp_def]
    rw [split, feed_empty_iff positive, stream]
    simp

/-- Items of a line that fit are only held, unless they make the held piece full
at an interruption. -/
theorem feed_fitting (cap : Nat) (delimiter : α) (held : List α) (marked : List (α × Bool))
    (plain : delimiter ∉ marked.map Prod.fst) (fits : held.length + marked.length ≤ cap)
    (quiet : held.length + marked.length = cap → ∀ entry ∈ marked, entry.2 = false) :
    feed cap delimiter held marked = ([], held ++ marked.map Prod.fst) := by
  induction marked generalizing held with
  | nil => simp [feed]
  | cons first rest ih =>
    obtain ⟨item, interrupted⟩ := first
    simp only [List.map_cons, List.mem_cons, not_or] at plain
    simp only [List.length_cons] at fits quiet
    have other : item ≠ delimiter := fun equal => plain.1 equal.symm
    have room : ¬ held.length = cap := by omega
    have grown : (held ++ [item]).length = held.length + 1 := by simp
    have passed : settle cap interrupted (held ++ [item]) = ([], held ++ [item]) := by
      by_cases full : (held ++ [item]).length = cap
      · have last : interrupted = false :=
          quiet (by omega) (item, interrupted) List.mem_cons_self
        simp [settle, last]
      · exact settle_partway full interrupted
    have following := ih (held ++ [item]) plain.2 (by omega) (fun full entry member =>
      quiet (by omega) entry (List.mem_cons_of_mem _ member))
    simp [feed, accept, other, room, passed, following]

/-- A delimiter gives up what is held, and a line starts after it. -/
theorem feed_delimiter {cap : Nat} (positive : 0 < cap) (delimiter : α) (held : List α)
    (interrupted : Bool) (rest : List (α × Bool)) :
    feed cap delimiter held ((delimiter, interrupted) :: rest) =
      (held :: (feed cap delimiter [] rest).1, (feed cap delimiter [] rest).2) := by
  have room : ¬ ([] : List α).length = cap := by
    rw [List.length_nil]
    omega
  simp [feed, accept, settle_partway room]

end Cutting
