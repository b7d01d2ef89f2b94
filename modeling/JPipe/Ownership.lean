import JPipe.Worker

/-!
# What a run allocates

`jp_wrk_exec` owns the output directory, the set of fields with an allocation for each
field, and the queue. The options replace some of them on the way: a directory by the
next one, a field by one with the same key, the directory by its absolute path. The
journal of the run says what is allocated and freed into which pointer.

Which pointers are in use follows from the context: while the options are read the set
is, the directory if there is one, and the place of each field. Whatever the arguments
and whichever call fails, the run frees what it allocated and nothing else.
-/

namespace JPipe

open Ledger

universe u

variable {Tree : Type u}

/-- The pointers in use with a set of so many fields, and with a directory or without. -/
def owners (directory : Bool) (count : Nat) : Finset Owner :=
  insert .fieldSet ((if directory then {.outDir} else ∅) ∪ (Finset.range count).image .field)

/-- The pointers in use while the options are read. -/
def WorkerCtx.owners (ctx : WorkerCtx) : Finset Owner :=
  JPipe.owners ctx.outDir.isSome ctx.fields.fields.length

@[simp] theorem mem_owners_out_dir (directory : Bool) (count : Nat) :
    .outDir ∈ owners directory count ↔ directory = true := by
  cases directory <;> simp [owners]

@[simp] theorem mem_owners_field (directory : Bool) (count place : Nat) :
    .field place ∈ owners directory count ↔ place < count := by
  cases directory <;> simp [owners]

@[simp] theorem mem_owners_field_set (directory : Bool) (count : Nat) :
    .fieldSet ∈ owners directory count := by
  simp [owners]

@[simp] theorem mem_owners_new_field (directory : Bool) (count : Nat) :
    .newField ∉ owners directory count := by
  cases directory <;> simp [owners]

end JPipe
