import JPipe.Region
import Mathlib.Data.List.Basic

/-!
# Reading what was written

What a region gives after a write: the items where they were put, and everywhere
else what it gave before. With runs of cells of one width side by side, a write
inside of one of them is not seen from another.
-/

universe u

namespace Region

variable {α : Type u} {size : Nat}

/-- A read has a result where its cells are inside. -/
theorem read_within (region : Region α size) {position count : Nat}
    (within : position + count ≤ size) :
    region.read position count = some ((region.cells.drop position).take count) :=
  if_pos within

/-- A result of a read comes from cells that are inside. -/
theorem read_cells {region : Region α size} {position count : Nat} {items : List α}
    (given : region.read position count = some items) :
    position + count ≤ size ∧ (region.cells.drop position).take count = items := by
  rw [read] at given
  split at given
  · rename_i within
    exact ⟨within, Option.some.inj given⟩
  · simp at given

/-- A write has a result exactly where its cells are inside. -/
theorem write_some_iff (region : Region α size) (position : Nat) (items : List α) :
    (region.write position items).isSome = true ↔ position + items.length ≤ size := by
  rw [write]
  split <;> simp_all

/-- The cells after a write. -/
theorem write_cells {region next : Region α size} {position : Nat} {items : List α}
    (written : region.write position items = some next) :
    position + items.length ≤ size ∧
      next.cells = region.cells.take position ++ items ++
        region.cells.drop (position + items.length) := by
  rw [write] at written
  split at written
  · rename_i within
    exact ⟨within, congrArg cells (Option.some.inj written).symm⟩
  · simp at written

/-- What was written is read back. -/
theorem read_written {region next : Region α size} {position : Nat} {items : List α}
    (written : region.write position items = some next) :
    next.read position items.length = some items := by
  obtain ⟨within, shape⟩ := write_cells written
  have front : (region.cells.take position).length = position := by
    have sized := region.sized
    rw [List.length_take]
    omega
  rw [read_within next within, shape, List.append_assoc, List.drop_append_of_le_length (by omega),
    List.drop_of_length_le (by omega), List.nil_append, List.take_left]

/-- Cells apart from those written give what they gave before. -/
theorem read_apart {region next : Region α size} {position other count : Nat} {items : List α}
    (written : region.write position items = some next)
    (apart : other + count ≤ position ∨ position + items.length ≤ other) :
    next.read other count = region.read other count := by
  obtain ⟨within, shape⟩ := write_cells written
  have sized := region.sized
  have front : (region.cells.take position).length = position := by
    rw [List.length_take]
    omega
  rw [read, read]
  by_cases inside : other + count ≤ size
  · rw [if_pos inside, if_pos inside, shape, List.append_assoc]
    apply congrArg some
    rcases apart with before | behind
    · rw [List.drop_append_of_le_length (by omega), List.take_append_of_le_length (by
        rw [List.length_drop]
        omega), List.drop_take, List.take_take]
      congr 1
      omega
    · rw [← List.append_assoc, List.drop_append,
        List.drop_of_length_le (by
          rw [List.length_append]
          omega), List.nil_append, List.drop_drop, List.length_append, front]
      congr 2
      omega
  · rw [if_neg inside, if_neg inside]

/-- Two runs side by side are one. -/
theorem read_append {region : Region α size} {position : Nat} {front back : List α}
    (first : region.read position front.length = some front)
    (second : region.read (position + front.length) back.length = some back) :
    region.read position (front ++ back).length = some (front ++ back) := by
  obtain ⟨_, shape⟩ := read_cells first
  obtain ⟨within, more⟩ := read_cells second
  rw [List.length_append, read_within region (by omega), List.take_add, List.drop_drop, shape, more]

/-- The end of a run is read from the middle of it. -/
theorem read_drop {region : Region α size} {position passed : Nat} {items : List α}
    (given : region.read position items.length = some items) (inside : passed ≤ items.length) :
    region.read (position + passed) (items.length - passed) = some (items.drop passed) := by
  obtain ⟨within, shape⟩ := read_cells given
  rw [read_within region (by omega), ← List.drop_drop, ← List.drop_take, shape]

/-! ### Tiles -/

/-- Where a tile starts: tiles of one width lie side by side from a base on. -/
def tile (base width index : Nat) : Nat := base + index * width

/-- The tiles lie inside of what their number needs. -/
theorem tile_inside {base width index count : Nat} (present : index < count) :
    tile base width index + width ≤ base + count * width := by
  have covered : (index + 1) * width ≤ count * width := Nat.mul_le_mul_right width present
  rw [Nat.succ_mul] at covered
  rw [tile]
  omega

/-- Two tiles have no cell in common. -/
theorem tiles_apart {base width first second : Nat} (different : first ≠ second) :
    tile base width first + width ≤ tile base width second ∨
      tile base width second + width ≤ tile base width first := by
  rw [tile, tile]
  rcases Nat.lt_or_gt_of_ne different with below | above
  · left
    have covered : (first + 1) * width ≤ second * width := Nat.mul_le_mul_right width below
    rw [Nat.succ_mul] at covered
    omega
  · right
    have covered : (second + 1) * width ≤ first * width := Nat.mul_le_mul_right width above
    rw [Nat.succ_mul] at covered
    omega

end Region
