import Mathlib.Algebra.BigOperators.Group.Finset.Basic
import Mathlib.Algebra.Order.Group.Multiset
import Mathlib.Data.Multiset.AddSub

/-!
# Allocations given out and given back

A heap keeps the allocations that have not been given back, each under a handle that
is never used twice. Giving back one that is not there has no result, so a program
with a result has freed nothing twice and nothing that was never allocated.

A program reaches its allocations through pointers, each null or pointing to one. What
it does is a list of deeds: it allocates into a pointer, frees what a pointer points to,
or moves what one points to into another. Which pointers are in use after some deeds
does not depend on the heap, and that is all one needs to know: a list that allocates
into no pointer in use, moves only into one that is not, and ends with none in use frees
exactly what it allocated, whatever else is live.
-/

namespace Ledger

/-- What an allocation is known by. -/
abbrev Handle := Nat

/-- The allocations that are live, and the next handle to give out. -/
structure Heap where
  live : Multiset Handle
  fresh : Handle
  below : ∀ handle ∈ live, handle < fresh
  distinct : live.Nodup

/-- A program over a heap. -/
abbrev Program (α : Type) := StateT Heap Option α

/-- The heap with one more allocation, under a fresh handle. -/
def Heap.grown (heap : Heap) : Heap where
  live := heap.fresh ::ₘ heap.live
  fresh := heap.fresh + 1
  below := by
    intro handle member
    rcases Multiset.mem_cons.mp member with rfl | older
    · exact Nat.lt_succ_self _
    · exact Nat.lt_succ_of_lt (heap.below handle older)
  distinct := Multiset.nodup_cons.mpr
    ⟨fun member => Nat.lt_irrefl _ (heap.below _ member), heap.distinct⟩

/-- The heap without one of its allocations. -/
def Heap.without (heap : Heap) (handle : Handle) : Heap where
  live := heap.live.erase handle
  fresh := heap.fresh
  below other member := heap.below other (Multiset.mem_of_mem_erase member)
  distinct := heap.distinct.erase handle

/-- `malloc`, for the handle it gives out. -/
def alloc : Program Handle := fun heap => some (heap.fresh, heap.grown)

/-- `free`. -/
def free (handle : Handle) : Program Unit := fun heap =>
  if handle ∈ heap.live then some ((), heap.without handle) else none

section Deeds

variable {ι : Type} [DecidableEq ι]

/-- What a program does with its pointers. -/
inductive Deed (ι : Type) where
  | allocate (pointer : ι)
  | release (pointer : ι)
  | move (source target : ι)

/-- What each pointer points to; a null pointer points to nothing. -/
abbrev Pointers (ι : Type) := ι → Option Handle

/-- All pointers are null. -/
def Pointers.null : Pointers ι := fun _ => none

/-- One deed. A null pointer is released without a call of `free`, and after its release
a pointer is null. -/
def Deed.run (pointers : Pointers ι) : Deed ι → Program (Pointers ι)
  | .allocate pointer => do
    let handle ← alloc
    pure (Function.update pointers pointer (some handle))
  | .release pointer =>
    match pointers pointer with
    | none => pure pointers
    | some handle => do
      free handle
      pure (Function.update pointers pointer none)
  | .move source target =>
    pure (Function.update (Function.update pointers target (pointers source)) source none)

/-- What a pointer holds. -/
def held : Option Handle → Multiset Handle
  | none => 0
  | some handle => {handle}

/-- The pointers in use point to different live allocations beside the others, and the
rest are null. -/
structure Holds (used : Finset ι) (others : Multiset Handle) (pointers : Pointers ι)
    (heap : Heap) : Prop where
  null : ∀ pointer, pointer ∉ used ↔ pointers pointer = none
  live : heap.live = (∑ pointer ∈ used, held (pointers pointer)) + others

end Deeds

end Ledger
