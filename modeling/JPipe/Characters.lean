import JPipe.Contiguity
import JPipe.Payloads
import JPipe.Utf8
import JPipe.Writer
import Mathlib.Data.List.Basic
import Mathlib.Data.List.Forall2

/-!
# Characters at the chunk size

A line longer than the chunk size is cut at every multiple of it, counted from the
start of the line, however the stream arrives. The payloads of a UTF-8 stream are
UTF-8 exactly when no such place is inside of a character.
-/

namespace JPipe

/-- At every multiple of the chunk size a character of the line starts, if the line
goes on there. -/
def CutsBetween (chunkSize : Nat) (text : List Byte) : Prop :=
  ∀ place, (inside : place < text.length) → chunkSize ∣ place → text[place].IsUTF8FirstByte

instance (chunkSize : Nat) (text : List Byte) : Decidable (CutsBetween chunkSize text) :=
  inferInstanceAs (Decidable (∀ place, (inside : place < text.length) → chunkSize ∣ place →
    text[place].IsUTF8FirstByte))

/-- A line is cut between characters exactly when each byte that stands at a multiple of
the chunk size starts a character. -/
theorem cuts_between_iff (chunkSize : Nat) (text : List Byte) :
    CutsBetween chunkSize text ↔
      ∀ place byte, text[place]? = some byte → chunkSize ∣ place → byte.IsUTF8FirstByte := by
  constructor
  · intro cuts place byte here multiple
    obtain ⟨inside, rfl⟩ := List.getElem?_eq_some_iff.mp here
    exact cuts place inside multiple
  · intro cuts place inside multiple
    exact cuts place _ (List.getElem?_eq_getElem inside) multiple

/-- The newline is a character of its own. -/
theorem newline_single : String.utf8EncodeChar '\n' = [newline] := by decide

/-- Each line of a valid stream is valid. -/
theorem lines_valid (lines : List (List Byte))
    (valid : Utf8.Valid (lines.flatMap fun line => line ++ [newline])) :
    ∀ line ∈ lines, Utf8.Valid line := by
  induction lines with
  | nil => simp
  | cons line rest ih =>
    rw [List.flatMap_cons, List.append_assoc, List.singleton_append] at valid
    obtain ⟨here, later⟩ := Utf8.valid_around newline_single valid
    intro other member
    cases List.mem_cons.mp member with
    | inl same => exact same ▸ here
    | inr after => exact ih later other after

/-- A line that fits is cut nowhere. -/
theorem short_cuts_between {chunkSize : Nat} {line : List Byte} (fits : line.length ≤ chunkSize)
    (valid : Utf8.Valid line) : CutsBetween chunkSize line := by
  intro place inside multiple
  obtain rfl : place = 0 := Nat.eq_zero_of_dvd_of_lt multiple (Nat.lt_of_lt_of_le inside fits)
  cases line with
  | nil => simp at inside
  | cons first rest => exact Utf8.first_starts valid

/-- After a full piece the places to cut are those of the rest of the line. -/
theorem full_cuts_between_iff {chunkSize : Nat} {piece rest : List Byte}
    (full : piece.length = chunkSize) (valid : Utf8.Valid (piece ++ rest)) :
    CutsBetween chunkSize (piece ++ rest) ↔ CutsBetween chunkSize rest := by
  have shifted (place : Nat) : (piece ++ rest)[chunkSize + place]? = rest[place]? := by
    rw [← full, List.getElem?_append_right (Nat.le_add_right _ _), Nat.add_sub_cancel_left]
  rw [cuts_between_iff, cuts_between_iff]
  constructor
  · intro whole place byte here multiple
    apply whole (chunkSize + place) byte
    · exact (shifted place).trans here
    · exact (Nat.dvd_add_right (Nat.dvd_refl chunkSize)).mpr multiple
  · intro later place byte here multiple
    by_cases start : place = 0
    · subst start
      cases whole : piece ++ rest with
      | nil => simp [whole] at here
      | cons first others =>
        rw [whole] at valid here
        obtain rfl : first = byte := by simpa using here
        exact Utf8.first_starts valid
    · obtain ⟨after, rfl⟩ : ∃ after, place = chunkSize + after :=
        Nat.exists_eq_add_of_le (Nat.le_of_dvd (Nat.pos_of_ne_zero start) multiple)
      rw [shifted] at here
      exact later after byte here ((Nat.dvd_add_right (Nat.dvd_refl chunkSize)).mp multiple)

/-- The pieces of a valid line are valid exactly when it is cut between characters.

Induct over the full pieces. A piece that is not valid ends inside of a character, so
the rest of the line starts with a byte that starts none. -/
theorem slices_valid_iff {chunkSize : Nat} (given : List (List Byte)) {last : List Byte}
    (full : ∀ piece ∈ given, piece.length = chunkSize)
    (fits : last.length ≤ chunkSize) (valid : Utf8.Valid (given.flatten ++ last)) :
    (∀ piece ∈ given ++ [last], Utf8.Valid piece) ↔
      CutsBetween chunkSize (given.flatten ++ last) := by
  induction given with
  | nil =>
    have cuts := short_cuts_between fits valid
    simpa [cuts] using valid
  | cons piece rest ih =>
    have size : piece.length = chunkSize := full piece List.mem_cons_self
    rw [List.flatten_cons, List.append_assoc] at valid ⊢
    rw [full_cuts_between_iff size valid]
    by_cases whole : Utf8.Valid piece
    · have following := ih (fun other member => full other (List.mem_cons_of_mem piece member))
        ((Utf8.valid_append_iff whole _).mp valid)
      rw [← following]
      simp [whole]
    · constructor
      · intro all
        exact absurd (all piece (by simp)) whole
      · intro cuts
        cases tail : rest.flatten ++ last with
        | nil =>
          rw [tail, List.append_nil] at valid
          exact absurd valid whole
        | cons byte others =>
          rw [tail] at valid cuts
          have starts := cuts 0 (by simp) (Nat.dvd_zero chunkSize)
          exact absurd ((Utf8.valid_front_iff valid).mpr starts) whole

/-- The pieces that a stream of valid lines is cut into are all valid exactly when each of
its lines is cut between characters. -/
theorem cuts_valid_iff {chunkSize : Nat} {lines : List (List Byte)}
    {cuts : List (List (List Byte))} (sliced : List.Forall₂ (Cutting.Sliced chunkSize) lines cuts)
    (valid : ∀ line ∈ lines, Utf8.Valid line) :
    (∀ piece ∈ cuts.flatten, Utf8.Valid piece) ↔ ∀ line ∈ lines, CutsBetween chunkSize line := by
  induction sliced with
  | nil => simp
  | cons head _ ih =>
    obtain ⟨given, last, rfl, rfl, full, fits⟩ := head
    have here := slices_valid_iff given full fits (valid _ List.mem_cons_self)
    have others := ih (fun line member => valid line (List.mem_cons_of_mem _ member))
    rw [List.flatten_cons, List.forall_mem_append, List.forall_mem_cons, here, others]

/-- The pieces of a valid stream of terminated lines are valid exactly when every line
is cut between characters. -/
theorem pieces_valid_iff {chunkSize : Nat} (positive : 0 < chunkSize)
    (lines blocks : List (List Byte)) (plain : ∀ line ∈ lines, newline ∉ line)
    (valid : Utf8.Valid (lines.flatMap fun line => line ++ [newline]))
    (stream : blocks.flatten = lines.flatMap fun line => line ++ [newline]) :
    (∀ piece ∈ (Cutting.feed chunkSize newline [] (Cutting.markBlocks chunkSize blocks)).1,
        Utf8.Valid piece) ↔ ∀ line ∈ lines, CutsBetween chunkSize line := by
  obtain ⟨cuts, cut, sliced⟩ := Cutting.feed_lines positive newline lines plain
    (Cutting.markBlocks chunkSize blocks) (by rw [Cutting.mark_blocks_items, stream])
  rw [cut]
  exact cuts_valid_iff sliced (lines_valid lines valid)

/-- Whatever the descriptor answers, every payload written of a valid stream is valid
exactly when every line is cut between characters. -/
theorem payloads_valid_iff {ctx : WriterCtx} (positive : 0 < ctx.chunkSize)
    (lines blocks : List (List Byte)) (fit : BlocksFit ctx.chunkSize blocks)
    (plain : ∀ line ∈ lines, newline ∉ line)
    (valid : Utf8.Valid (lines.flatMap fun line => line ++ [newline]))
    (stream : blocks.flatten = lines.flatMap fun line => line ++ [newline]) :
    (∀ (σ : Type) (emit : σ → List Byte → Option (σ × Errno)) (sink : σ) (final : Writer σ)
        (err : Errno), jpWriterProduce ctx emit sink blocks = some (final, err) →
        ∀ payload ∈ payloads final, Utf8.Valid payload) ↔
      ∀ line ∈ lines, CutsBetween ctx.chunkSize line := by
  rw [← pieces_valid_iff positive lines blocks plain valid stream]
  constructor
  · intro written
    obtain ⟨final, produced, records, _⟩ :=
      writer_completes ctx takeAll take_all_succeeds () blocks fit
    rw [← payloads_of_records records]
    exact written Unit takeAll () final .ok produced
  · intro pieces σ emit sink final err produced payload member
    have starts := (records_start ctx emit fit produced).map Record.payload
    apply pieces payload
    rw [← record_payloads]
    exact starts.subset member

/-- The lines `ab` and `éa`, the second cut after its first character. -/
theorem second_line_cut_between :
    ∃ final, jpWriterProduce (bareWriter 2) takeAll ()
        [[0x61, 0x62], [newline, 0xc3], [0xa9, 0x61], [newline]] = some (final, .ok) ∧
      payloads final = [[0x61, 0x62], [0xc3, 0xa9], [0x61]] ∧
      ∀ payload ∈ payloads final, Utf8.Valid payload := by
  have written := (@payloads_valid_iff (bareWriter 2) (by decide) [[0x61, 0x62], [0xc3, 0xa9, 0x61]]
    [[0x61, 0x62], [newline, 0xc3], [0xa9, 0x61], [newline]] (by decide) (by decide) (by decide)
    rfl).mpr (by decide)
  refine ⟨_, rfl, rfl, ?_⟩
  exact written Unit takeAll () _ .ok rfl

/-- A line of some bytes `a` and one `é`, cut inside of the `é` and before the newline. -/
def splitLine (count : Nat) : List (List Byte) :=
  [List.replicate count 0x61 ++ [0xc3], [0xa9], [newline]]

/-- Whatever the chunk size, a line of one byte more that ends with `é` is cut inside of
the `é`. -/
theorem last_character_splits (count : Nat) :
    Utf8.Valid (splitLine count).flatten ∧ BlocksFit (count + 1) (splitLine count) ∧
      ∃ final, jpWriterProduce (bareWriter (count + 1)) takeAll () (splitLine count) =
          some (final, .ok) ∧
        ∃ payload ∈ payloads final, ¬ Utf8.Valid payload := by
  have stream : (splitLine count).flatten =
      [List.replicate count 0x61 ++ [0xc3, 0xa9]].flatMap fun line => line ++ [newline] := by
    simp [splitLine]
  have valid : Utf8.Valid (splitLine count).flatten := by
    have single : String.utf8EncodeChar 'a' = [0x61] := by decide
    have others : Utf8.Valid [0xc3, 0xa9, newline] := by decide
    simpa [splitLine] using Utf8.valid_append (Utf8.valid_replicate single count) others
  have fit : BlocksFit (count + 1) (splitLine count) := by
    intro block member
    simp only [splitLine, List.mem_cons, List.not_mem_nil, or_false] at member
    rcases member with rfl | rfl | rfl <;> simp
  have plain : ∀ line ∈ [List.replicate count 0x61 ++ [0xc3, 0xa9]], newline ∉ line := by
    simp [newline]
  have inside : ¬ ∀ line ∈ [List.replicate count 0x61 ++ [0xc3, 0xa9]],
      CutsBetween (count + 1) line := by
    intro between
    have starts := (cuts_between_iff _ _).mp (between _ List.mem_cons_self) (count + 1) 0xa9
      (by simp) (Nat.dvd_refl _)
    revert starts
    decide
  obtain ⟨final, produced, records, _⟩ := writer_completes (bareWriter (count + 1)) takeAll
    take_all_succeeds () (splitLine count) fit
  have pieces : payloads final = (Cutting.feed (count + 1) newline []
      (Cutting.markBlocks (count + 1) (splitLine count))).1 := payloads_of_records records
  refine ⟨valid, fit, final, produced, ?_⟩
  rw [stream] at valid
  rw [← pieces_valid_iff (Nat.succ_pos count) _ _ plain valid stream, ← pieces] at inside
  simpa using inside

/-- With chunks of 1 KB, a line of 1023 bytes `a` and one `é` gives a payload that is
not valid. -/
theorem long_line_splits :
    Utf8.Valid (splitLine 1023).flatten ∧ BlocksFit 1024 (splitLine 1023) ∧
      ∃ final, jpWriterProduce (bareWriter 1024) takeAll () (splitLine 1023) =
          some (final, .ok) ∧
        ∃ payload ∈ payloads final, ¬ Utf8.Valid payload :=
  last_character_splits 1023

end JPipe
