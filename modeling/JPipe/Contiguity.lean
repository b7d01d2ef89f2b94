import JPipe.Cutting
import Mathlib.Data.List.Basic
import Mathlib.Data.List.Forall2
import Mathlib.Data.List.Infix

/-!
# Runs and slices of lines

A piece of a cutting is a run of the stream that crosses no delimiter, and what is
held is such a run at the end of the stream. A run without a delimiter of a stream
of terminated lines is a run of one of its lines.

What is held does not have to come from the stream that follows. Where nothing is
held, where the held piece is full, or where the stream starts with the delimiter,
it stays a piece of its own.

A stream of terminated lines is cut line by line: each line gives full pieces and a
last one, however the stream is interrupted.
-/

namespace Cutting

universe u
variable {α : Type u}

/-- The pieces and what is held are runs of the stream without a delimiter, and what
is held ends it. -/
structure Contiguous (delimiter : α) (stream : List α) (result : List (List α) × List α) :
    Prop where
  pieces : ∀ piece ∈ result.1, delimiter ∉ piece ∧ piece <:+: stream
  held : delimiter ∉ result.2 ∧ result.2 <:+ stream

/-- A run that is only held. -/
theorem contiguous_held {delimiter : α} {held : List α} (plain : delimiter ∉ held) :
    Contiguous delimiter held ([], held) where
  pieces := by simp
  held := ⟨plain, List.suffix_rfl⟩

/-- Cutting goes on with what is held. -/
theorem contiguous_then {delimiter : α} {first second : List α}
    {one other : List (List α) × List α} (before : Contiguous delimiter first one)
    (after : Contiguous delimiter (one.2 ++ second) other) :
    Contiguous delimiter (first ++ second) (one.1 ++ other.1, other.2) := by
  have ends : one.2 ++ second <:+ first ++ second := by
    obtain ⟨front, rfl⟩ := before.held.2
    rw [List.append_assoc]
    exact List.suffix_append front _
  constructor
  · intro piece member
    cases List.mem_append.mp member with
    | inl early =>
      obtain ⟨plain, within⟩ := before.pieces piece early
      exact ⟨plain, within.trans (List.prefix_append first second).isInfix⟩
    | inr late =>
      obtain ⟨plain, within⟩ := after.pieces piece late
      exact ⟨plain, within.trans ends.isInfix⟩
  · exact ⟨after.held.1, after.held.2.trans ends⟩

/-- An interruption keeps runs. -/
theorem settle_contiguous {delimiter : α} {held : List α} (plain : delimiter ∉ held) (cap : Nat)
    (interrupted : Bool) : Contiguous delimiter held (settle cap interrupted held) := by
  unfold settle
  split
  · constructor
    · intro piece member
      rw [List.mem_singleton.mp member]
      exact ⟨plain, List.infix_rfl⟩
    · exact ⟨List.not_mem_nil, List.nil_suffix⟩
  · exact contiguous_held plain

variable [DecidableEq α]

/-- Taking an item keeps runs. -/
theorem accept_contiguous {delimiter : α} {held : List α} (plain : delimiter ∉ held) (cap : Nat)
    (item : α) : Contiguous delimiter (held ++ [item]) (accept cap delimiter held item) := by
  have given (last : List α) (kept : delimiter ∉ last ∧ last <:+ held ++ [item]) :
      Contiguous delimiter (held ++ [item]) ([held], last) := by
    refine ⟨?_, kept⟩
    intro piece member
    rw [List.mem_singleton.mp member]
    exact ⟨plain, (List.prefix_append held [item]).isInfix⟩
  by_cases ends : item = delimiter
  · rw [accept, if_pos ends]
    exact given [] ⟨List.not_mem_nil, List.nil_suffix⟩
  · have other : delimiter ∉ [item] := by simpa using fun same => ends same.symm
    rw [accept, if_neg ends]
    split
    · exact given [item] ⟨other, List.suffix_append held [item]⟩
    · refine contiguous_held ?_
      simpa [plain] using other

/-- Feeding keeps runs. -/
theorem feed_contiguous {delimiter : α} {held : List α} (plain : delimiter ∉ held) (cap : Nat)
    (marked : List (α × Bool)) :
    Contiguous delimiter (held ++ marked.map Prod.fst) (feed cap delimiter held marked) := by
  induction marked generalizing held with
  | nil =>
    rw [List.map_nil, List.append_nil]
    exact contiguous_held plain
  | cons first rest ih =>
    obtain ⟨item, interrupted⟩ := first
    have taken := accept_contiguous plain cap item
    have settled := settle_contiguous taken.held.1 cap interrupted
    have following := ih settled.held.1
    simpa [feed] using contiguous_then taken (contiguous_then settled following)

/-- Where the held piece cannot grow, it stays a piece of its own, and all others are
runs of the stream that follows. -/
theorem feed_apart {cap : Nat} (positive : 0 < cap) {delimiter : α} {held : List α}
    (first : α × Bool) (rest : List (α × Bool))
    (apart : held = [] ∨ held.length = cap ∨ first.1 = delimiter) :
    (∀ piece ∈ (feed cap delimiter held (first :: rest)).1, piece = held ∨
        delimiter ∉ piece ∧ piece <:+: (first :: rest).map Prod.fst) ∧
      delimiter ∉ (feed cap delimiter held (first :: rest)).2 ∧
      (feed cap delimiter held (first :: rest)).2 <:+ (first :: rest).map Prod.fst := by
  obtain ⟨item, interrupted⟩ := first
  have fresh (marked : List (α × Bool)) :
      Contiguous delimiter (marked.map Prod.fst) (feed cap delimiter [] marked) :=
    feed_contiguous List.not_mem_nil cap marked
  have whole := fresh ((item, interrupted) :: rest)
  have following := fresh rest
  have shorter : rest.map Prod.fst <:+ ((item, interrupted) :: rest).map Prod.fst :=
    List.suffix_cons item _
  by_cases ends : item = delimiter
  · subst ends
    rw [feed_delimiter positive]
    refine ⟨?_, following.held.1, following.held.2.trans shorter⟩
    intro piece member
    cases List.mem_cons.mp member with
    | inl same => exact Or.inl same
    | inr later =>
      obtain ⟨plain, within⟩ := following.pieces piece later
      exact Or.inr ⟨plain, within.trans shorter.isInfix⟩
  · rcases apart with rfl | full | same
    · exact ⟨fun piece member => Or.inr (whole.pieces piece member), whole.held⟩
    · rw [feed_full positive delimiter full ends]
      refine ⟨?_, whole.held⟩
      intro piece member
      cases List.mem_cons.mp member with
      | inl same => exact Or.inl same
      | inr later => exact Or.inr (whole.pieces piece later)
    · exact absurd same ends

/-! ### Terminated lines -/

omit [DecidableEq α] in
/-- A run without the delimiter that starts before it ends before it. -/
theorem prefix_before {delimiter : α} {piece line rest : List α} (plain : delimiter ∉ piece)
    (starts : piece <+: line ++ delimiter :: rest) : piece <+: line := by
  rcases List.prefix_or_prefix_of_prefix starts (List.prefix_append line _) with within | beyond
  · exact within
  · obtain ⟨extra, rfl⟩ := beyond
    rw [List.prefix_append_right_inj] at starts
    cases extra with
    | nil => simp
    | cons item extra =>
      obtain ⟨rfl, _⟩ := List.cons_prefix_cons.mp starts
      simp at plain

omit [DecidableEq α] in
/-- A run without the delimiter is before it or after it. -/
theorem within_either {delimiter : α} {piece : List α} (plain : delimiter ∉ piece)
    (line rest : List α) (within : piece <:+: line ++ delimiter :: rest) :
    piece <:+: line ∨ piece <:+: rest := by
  induction line with
  | nil =>
    cases List.infix_cons_iff.mp within with
    | inl starts =>
      have before : piece <+: [] := prefix_before plain starts
      exact Or.inl before.isInfix
    | inr later => exact Or.inr later
  | cons item line ih =>
    cases List.infix_cons_iff.mp within with
    | inl starts =>
      have before : piece <+: item :: line := prefix_before plain starts
      exact Or.inl before.isInfix
    | inr later =>
      cases ih later with
      | inl inside => exact Or.inl (inside.trans (List.suffix_cons item line).isInfix)
      | inr after => exact Or.inr after

omit [DecidableEq α] in
/-- A run without the delimiter of terminated lines is a run of one of them. -/
theorem within_line {delimiter : α} {piece : List α} (plain : delimiter ∉ piece)
    (lines : List (List α)) (some : lines ≠ [])
    (within : piece <:+: lines.flatMap (fun line => line ++ [delimiter])) :
    ∃ line ∈ lines, piece <:+: line := by
  induction lines with
  | nil => exact absurd rfl some
  | cons line rest ih =>
    rw [List.flatMap_cons, List.append_assoc, List.singleton_append] at within
    cases within_either plain line _ within with
    | inl here => exact ⟨line, List.mem_cons_self, here⟩
    | inr later =>
      by_cases last : rest = []
      · subst last
        obtain rfl : piece = [] := by simpa using later
        exact ⟨line, List.mem_cons_self, List.nil_infix⟩
      · obtain ⟨other, member, inside⟩ := ih last later
        exact ⟨other, List.mem_cons_of_mem line member, inside⟩

/-! ### Slices of terminated lines -/

/-- A line cut into full pieces and a last one that is at most full. -/
def Sliced (cap : Nat) (line : List α) (pieces : List (List α)) : Prop :=
  ∃ given last, pieces = given ++ [last] ∧ given.flatten ++ last = line ∧
    (∀ piece ∈ given, piece.length = cap) ∧ last.length ≤ cap

/-- Items of a line give up full pieces only, and hold one that is at most full. -/
theorem feed_full_pieces {cap : Nat} (positive : 0 < cap) (delimiter : α) {held : List α}
    (fits : held.length ≤ cap) (marked : List (α × Bool)) (plain : delimiter ∉ marked.map Prod.fst) :
    (∀ piece ∈ (feed cap delimiter held marked).1, piece.length = cap) ∧
      (feed cap delimiter held marked).2.length ≤ cap := by
  induction marked generalizing held with
  | nil => exact ⟨by simp [feed], fits⟩
  | cons first rest ih =>
    obtain ⟨item, interrupted⟩ := first
    simp only [List.map_cons, List.mem_cons, not_or] at plain
    have settled (kept : List α) (room : kept.length ≤ cap) :
        (∀ piece ∈ (settle cap interrupted kept).1, piece.length = cap) ∧
          (settle cap interrupted kept).2.length ≤ cap := by
      unfold settle
      split <;> simp_all
    have taken : (∀ piece ∈ (accept cap delimiter held item).1, piece.length = cap) ∧
        (accept cap delimiter held item).2.length ≤ cap := by
      rw [accept, if_neg (Ne.symm plain.1)]
      split
      · rename_i full
        exact ⟨by simp [full], Nat.succ_le_of_lt positive⟩
      · refine ⟨by simp, ?_⟩
        rw [List.length_append, List.length_singleton]
        omega
    have after := settled _ taken.2
    have following := ih after.2 plain.2
    refine ⟨?_, following.2⟩
    intro piece member
    simp only [feed, List.append_assoc, List.mem_append] at member
    rcases member with one | two | three
    · exact taken.1 piece one
    · exact after.1 piece two
    · exact following.1 piece three

/-- Terminated lines are sliced one after the other, and nothing is held after them. -/
theorem feed_lines {cap : Nat} (positive : 0 < cap) (delimiter : α) (lines : List (List α))
    (plain : ∀ line ∈ lines, delimiter ∉ line) (marked : List (α × Bool))
    (stream : marked.map Prod.fst = lines.flatMap (fun line => line ++ [delimiter])) :
    ∃ cuts, feed cap delimiter [] marked = (cuts.flatten, []) ∧
      List.Forall₂ (Sliced cap) lines cuts := by
  induction lines generalizing marked with
  | nil =>
    obtain rfl : marked = [] := by simpa using stream
    exact ⟨[], rfl, List.Forall₂.nil⟩
  | cons line rest ih =>
    rw [List.flatMap_cons, List.append_assoc] at stream
    obtain ⟨body, others, rfl, bodyItems, othersItems⟩ := List.map_eq_append_iff.mp stream
    obtain ⟨ending, following, rfl, endingItem, followingItems⟩ :=
      List.map_eq_append_iff.mp othersItems
    obtain ⟨⟨item, interrupted⟩, rfl, rfl⟩ := List.map_eq_singleton_iff.mp endingItem
    have clean : item ∉ body.map Prod.fst := bodyItems ▸ plain line List.mem_cons_self
    have empty : ([] : List α).length ≤ cap := Nat.zero_le cap
    obtain ⟨full, room⟩ := feed_full_pieces positive item empty body clean
    have conserved := feed_conserves cap item [] body
    rw [List.nil_append, List.filter_eq_self.mpr ?_, bodyItems] at conserved
    · obtain ⟨cuts, cut, sliced⟩ := ih
        (fun other member => plain other (List.mem_cons_of_mem line member)) following followingItems
      refine ⟨((feed cap item [] body).1 ++ [(feed cap item [] body).2]) :: cuts, ?_, ?_⟩
      · rw [feed_append, List.singleton_append, feed_delimiter positive, cut]
        simp
      · exact List.Forall₂.cons ⟨_, _, rfl, conserved, full, room⟩ sliced
    · intro other member
      simpa using fun same : other = item => clean (same ▸ member)

omit [DecidableEq α] in
/-- A line shorter than the capacity is its only piece. -/
theorem sliced_short {cap : Nat} {line : List α} {pieces : List (List α)}
    (sliced : Sliced cap line pieces) (short : line.length < cap) : pieces = [line] := by
  obtain ⟨given, last, rfl, rfl, full, _⟩ := sliced
  cases given with
  | nil => rfl
  | cons piece rest =>
    have size : piece.length = cap := full piece List.mem_cons_self
    simp only [List.flatten_cons, List.append_assoc, List.length_append] at short
    omega

omit [DecidableEq α] in
/-- Lines shorter than the capacity are the pieces. -/
theorem sliced_short_lines {cap : Nat} {lines : List (List α)} {cuts : List (List (List α))}
    (sliced : List.Forall₂ (Sliced cap) lines cuts) (short : ∀ line ∈ lines, line.length < cap) :
    cuts.flatten = lines := by
  induction sliced with
  | nil => rfl
  | cons head _ ih =>
    have others := ih (fun line member => short line (List.mem_cons_of_mem _ member))
    rw [List.flatten_cons, sliced_short head (short _ List.mem_cons_self), others,
      List.singleton_append]

/-- Lines shorter than the capacity, each with its delimiter, are the pieces,
however the stream is interrupted. -/
theorem feed_short_lines {cap : Nat} (delimiter : α) (lines : List (List α))
    (plain : ∀ line ∈ lines, delimiter ∉ line) (short : ∀ line ∈ lines, line.length < cap)
    (marked : List (α × Bool))
    (stream : marked.map Prod.fst = lines.flatMap (fun line => line ++ [delimiter])) :
    feed cap delimiter [] marked = (lines, []) := by
  cases lines with
  | nil =>
    obtain rfl : marked = [] := by simpa using stream
    rfl
  | cons line rest =>
    have positive : 0 < cap := Nat.zero_lt_of_lt (short line List.mem_cons_self)
    obtain ⟨cuts, cut, sliced⟩ := feed_lines positive delimiter (line :: rest) plain marked stream
    rw [cut, sliced_short_lines sliced short]

end Cutting
