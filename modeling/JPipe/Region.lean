import Mathlib.Data.List.Basic
import Mathlib.Data.Option.Basic

/-!
# Regions of memory

A region is a run of cells whose number never changes. Reading and writing name
a position and a number of cells, and have no result when one of these cells is
outside of the region; the difference of two positions has none when it would be
negative. A program with a result has therefore stayed within its regions.

A cursor is a region with the position at which the next items are written. A
program fills a text when, from any start, it appends the text at the cursor,
given room for it. Filling composes along sequences and loops, so that what a
whole program needs is one inequality about its text.
-/

universe u v

/-- Cells whose number is fixed. -/
structure Region (α : Type u) (size : Nat) where
  cells : List α
  sized : cells.length = size
deriving DecidableEq

namespace Region

variable {α : Type u} {β : Type v} {size : Nat}

/-- The region made of given items. -/
def of (items : List α) : Region α items.length where
  cells := items
  sized := rfl

/-- How far one position lies behind another. -/
def distance (later earlier : Nat) : Option Nat :=
  if earlier ≤ later then some (later - earlier) else none

/-- A number of cells from a position on. -/
def read (region : Region α size) (position count : Nat) : Option (List α) :=
  if position + count ≤ size then some ((region.cells.drop position).take count) else none

/-- Put items into the cells from a position on. -/
def write (region : Region α size) (position : Nat) (items : List α) : Option (Region α size) :=
  if fits : position + items.length ≤ size then
    some {
      cells := region.cells.take position ++ items ++ region.cells.drop (position + items.length)
      sized := by
        have sized := region.sized
        simp only [List.length_append, List.length_take, List.length_drop]
        omega }
  else none

/-- A region that begins with a text; the other cells hold anything. -/
def Holds (region : Region α size) (text : List α) : Prop := text <+: region.cells

theorem distance_of_le {later earlier : Nat} (ordered : earlier ≤ later) :
    distance later earlier = some (later - earlier) := if_pos ordered

theorem read_of {items : List α} {position count : Nat} (within : position + count ≤ items.length) :
    (of items).read position count = some ((items.drop position).take count) := if_pos within

/-- Nothing is known of a fresh region. -/
theorem holds_nil (region : Region α size) : region.Holds [] := List.nil_prefix

/-- Every region holds the cells it begins with. -/
theorem holds_take (region : Region α size) (count : Nat) :
    region.Holds (region.cells.take count) :=
  List.take_prefix count region.cells

theorem holds_length {region : Region α size} {text : List α} (holds : region.Holds text) :
    text.length ≤ size := by
  have bound := holds.length_le
  rwa [region.sized] at bound

/-- What a region holds is the first of its cells. -/
theorem take_of_holds {region : Region α size} {text : List α} (holds : region.Holds text) :
    region.cells.take text.length = text := by
  obtain ⟨others, cells⟩ := holds
  rw [← cells, List.take_left]

/-- A text held is what is read from the start of the region. -/
theorem read_holds {region : Region α size} {text : List α} (holds : region.Holds text) :
    region.read 0 text.length = some text := by
  have within : 0 + text.length ≤ size := by
    rw [Nat.zero_add]
    exact holds_length holds
  rw [read, if_pos within, List.drop_zero, take_of_holds holds]

/-- Items written behind a held text make it longer. -/
theorem write_holds {region : Region α size} {text : List α} (holds : region.Holds text)
    (items : List α) (room : text.length + items.length ≤ size) :
    ∃ next, region.write text.length items = some next ∧ next.Holds (text ++ items) := by
  refine ⟨_, dif_pos room, ?_⟩
  simp only [Holds, take_of_holds holds]
  exact List.prefix_append _ _

/-- A region with the position of the next item. -/
structure Cursor (α : Type u) (size : Nat) where
  region : Region α size
  position : Nat

/-- Write items at the cursor and move it behind them. -/
def Cursor.put (items : List α) (cursor : Cursor α size) : Option (Cursor α size) :=
  (cursor.region.write cursor.position items).map fun region =>
    { region, position := cursor.position + items.length }

/-- The cursor stands behind a text that the region holds. -/
structure Cursor.Behind (cursor : Cursor α size) (text : List α) : Prop where
  holds : cursor.region.Holds text
  position : cursor.position = text.length

/-- From any start the program appends the text, given room for it. -/
def Fills (program : Cursor α size → Option (Cursor α size)) (text : List α) : Prop :=
  ∀ cursor held, cursor.Behind held → held.length + text.length ≤ size →
    ∃ next, program cursor = some next ∧ next.Behind (held ++ text)

/-- Doing nothing appends nothing. -/
theorem fills_nothing : Fills (fun cursor : Cursor α size => some cursor) [] := by
  intro cursor held behind _
  refine ⟨cursor, rfl, ?_⟩
  rwa [List.append_nil]

/-- Writing items at the cursor appends them. -/
theorem fills_put (items : List α) :
    Fills (fun cursor : Cursor α size => cursor.put items) items := by
  intro cursor held behind room
  obtain ⟨region, written, holds⟩ := write_holds behind.holds items room
  refine ⟨{ region, position := cursor.position + items.length }, ?_, holds, ?_⟩
  · simp only [Cursor.put, behind.position, written, Option.map_some]
  · simp only [behind.position, List.length_append]

/-- One program after another appends both texts. -/
theorem fills_bind {first second : Cursor α size → Option (Cursor α size)} {text more : List α}
    (fills : Fills first text) (following : Fills second more) :
    Fills (fun cursor => first cursor >>= second) (text ++ more) := by
  intro cursor held behind room
  rw [List.length_append] at room
  obtain ⟨middle, ran, reached⟩ := fills cursor held behind (by omega)
  obtain ⟨last, finished, ended⟩ := following middle (held ++ text) reached (by
    rw [List.length_append]
    omega)
  refine ⟨last, ?_, ?_⟩
  · simp only [ran, Option.bind_eq_bind, Option.bind_some, finished]
  · rwa [List.append_assoc] at ended

/-- A loop appends what its turns append, one after the other. -/
theorem fills_loop {body : β → Cursor α size → Option (Cursor α size)} {text : β → List α}
    (items : List β) (fills : ∀ item ∈ items, Fills (body item) (text item)) :
    Fills (fun cursor => items.foldlM (fun cursor item => body item cursor) cursor)
      (items.flatMap text) := by
  induction items with
  | nil => exact fills_nothing
  | cons item rest ih =>
    have first := fills item List.mem_cons_self
    have others := ih (fun other member => fills other (List.mem_cons_of_mem item member))
    rw [List.flatMap_cons]
    exact fills_bind first others

end Region
