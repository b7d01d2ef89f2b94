import JPipe.Tiles
import Mathlib.Data.List.Basic
import Mathlib.Data.UInt

/-!
# Numbers in a region of bytes

A number is stored in a window of a region, the low byte first, modulo the number
of values the window has room for. A plan gives each of the places of a region its
window: those present lie inside, and no two of them have a byte in common. So a
store at one place is read back there and not seen at the others, and storing one
number for each of some places, in any order, leaves each of them with its number.
-/

universe u

namespace Region

/-! ### Bytes of numbers -/

/-- The low bytes of a number. -/
def digits : Nat → Nat → List UInt8
  | 0, _ => []
  | width + 1, number => UInt8.ofNat number :: digits width (number / 256)

/-- The number some bytes stand for. -/
def undigits : List UInt8 → Nat
  | [] => 0
  | byte :: rest => byte.toNat + 256 * undigits rest

@[simp] theorem digits_length (width number : Nat) : (digits width number).length = width := by
  induction width generalizing number with
  | zero => rfl
  | succ width ih => rw [digits, List.length_cons, ih]

/-- The low bytes of a number stand for what is left of it modulo their values. -/
theorem undigits_digits (width number : Nat) :
    undigits (digits width number) = number % 256 ^ width := by
  induction width generalizing number with
  | zero => rw [Nat.pow_zero, Nat.mod_one]; rfl
  | succ width ih =>
    rw [digits, undigits, ih, Nat.pow_succ', Nat.mod_mul]
    rfl

/-- A number the bytes have room for is what they stand for. -/
theorem undigits_digits_of_lt {width number : Nat} (small : number < 256 ^ width) :
    undigits (digits width number) = number := by
  rw [undigits_digits, Nat.mod_eq_of_lt small]

/-! ### Windows -/

/-- A run of bytes of a region. -/
structure Window where
  position : Nat
  width : Nat
deriving DecidableEq, Repr

/-- Two windows have no byte in common. -/
def Window.Apart (first second : Window) : Prop :=
  first.position + first.width ≤ second.position ∨ second.position + second.width ≤ first.position

theorem apart_symm {first second : Window} (apart : first.Apart second) : second.Apart first :=
  Or.symm apart

variable {size : Nat}

/-- The bytes of a window. -/
def look (region : Region UInt8 size) (window : Window) : Option (List UInt8) :=
  region.read window.position window.width

/-- The number in a window. -/
def load (region : Region UInt8 size) (window : Window) : Option Nat :=
  (region.look window).map undigits

/-- Put a number into a window. -/
def store (region : Region UInt8 size) (window : Window) (number : Nat) :
    Option (Region UInt8 size) :=
  region.write window.position (digits window.width number)

/-- A store has a result exactly where its window is inside. -/
theorem store_some_iff (region : Region UInt8 size) (window : Window) (number : Nat) :
    (region.store window number).isSome = true ↔ window.position + window.width ≤ size := by
  rw [store, write_some_iff, digits_length]

/-- The number stored is loaded from its window. -/
theorem load_stored {region next : Region UInt8 size} {window : Window} {number : Nat}
    (small : number < 256 ^ window.width) (stored : region.store window number = some next) :
    next.load window = some number := by
  have given := read_written stored
  rw [digits_length] at given
  rw [load, look, given, Option.map_some, undigits_digits_of_lt small]

/-- A store is not seen in a window apart from its own. -/
theorem look_apart {region next : Region UInt8 size} {window other : Window} {number : Nat}
    (stored : region.store window number = some next) (apart : other.Apart window) :
    next.look other = region.look other := by
  apply read_apart stored
  rwa [digits_length]

/-! ### Plans -/

/-- Where the places of a region lie. -/
structure Plan (P : Type u) (size : Nat) where
  window : P → Window
  Present : P → Prop
  inside : ∀ place, Present place → (window place).position + (window place).width ≤ size
  apart : ∀ first second, Present first → Present second → first ≠ second →
    (window first).Apart (window second)

variable {P : Type u}

/-- Put the number of each of some places into its window. -/
def Plan.storeAll (plan : Plan P size) (value : P → Nat) :
    List P → Region UInt8 size → Option (Region UInt8 size)
  | [], region => some region
  | place :: rest, region =>
    (region.store (plan.window place) (value place)).bind (plan.storeAll value rest)

/-- What storing numbers at some places comes to: these hold their numbers, and no
window apart from theirs has changed. -/
structure Plan.Stored (plan : Plan P size) (value : P → Nat) (places : List P)
    (region next : Region UInt8 size) : Prop where
  there : ∀ place ∈ places, next.load (plan.window place) = some (value place)
  elsewhere : ∀ window : Window, (∀ place ∈ places, window.Apart (plan.window place)) →
    next.look window = region.look window

/-- Numbers that have room can be stored at any places present.

Induct over the places. A place that comes again is given the same number, and the
others are apart from the first. -/
theorem Plan.store_all (plan : Plan P size) (value : P → Nat) (places : List P)
    (region : Region UInt8 size) (present : ∀ place ∈ places, plan.Present place)
    (small : ∀ place ∈ places, value place < 256 ^ (plan.window place).width) :
    ∃ next, plan.storeAll value places region = some next ∧
      plan.Stored value places region next := by
  induction places generalizing region with
  | nil => exact ⟨region, rfl, by simp, fun _ _ => rfl⟩
  | cons first rest ih =>
    have own := present first List.mem_cons_self
    obtain ⟨middle, stored⟩ := Option.isSome_iff_exists.mp
      ((store_some_iff region (plan.window first) (value first)).mpr (plan.inside first own))
    obtain ⟨next, following, there, elsewhere⟩ := ih middle
      (fun place member => present place (List.mem_cons_of_mem first member))
      (fun place member => small place (List.mem_cons_of_mem first member))
    refine ⟨next, by rw [storeAll, stored, Option.bind_some, following], ?_, ?_⟩
    · intro place member
      by_cases again : place ∈ rest
      · exact there place again
      · obtain rfl : place = first := (List.mem_cons.mp member).resolve_right again
        rw [load, elsewhere, ← load, load_stored (small place member) stored]
        intro other among
        have different : place ≠ other := fun same => again (same ▸ among)
        have there := present other (List.mem_cons_of_mem place among)
        exact plan.apart place other own there different
    · intro window apart
      rw [elsewhere window fun place member => apart place (List.mem_cons_of_mem first member),
        look_apart stored (apart first List.mem_cons_self)]

/-- The places among those stored hold their new numbers, and the other ones present
what they held. -/
theorem Plan.stored_load {plan : Plan P size} {value : P → Nat} {places : List P}
    {region next : Region UInt8 size} (stored : plan.Stored value places region next)
    (present : ∀ place ∈ places, plan.Present place) {place : P} (own : plan.Present place)
    (kept : place ∉ places → region.load (plan.window place) = some (value place)) :
    next.load (plan.window place) = some (value place) := by
  by_cases among : place ∈ places
  · exact stored.there place among
  · rw [load, stored.elsewhere, ← load, kept among]
    intro other member
    exact plan.apart place other own (present other member) fun same => among (same ▸ member)

end Region
