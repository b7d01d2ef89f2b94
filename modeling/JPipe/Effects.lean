import JPipe.Diagnostics
import JPipe.Journal
import JPipe.Ledger

/-!
# What a call does besides returning

The functions of `worker.c` and `field.c` allocate and free on the way, and raise the
errors they return in the context of their thread. Each of them is one definition, a
computation that keeps a journal of that. What the function returns is the value of the
computation; the context after it and what becomes of the heap are read from its
journal.
-/

namespace JPipe

open Printf

universe u

variable {α : Type u}

/-- The pointers of a run that own an allocation: the output directory, the new field of
`jp_field_set_add`, each field of the set in its place, the set itself and the queue. -/
inductive Owner where
  | outDir
  | newField
  | field (place : Nat)
  | fieldSet
  | queue
deriving DecidableEq, Repr

/-- One thing done: an error raised, for the context it leaves, or a deed on the heap. -/
inductive Effect where
  | raised (ctx : ErrnoCtx)
  | memory (deed : Ledger.Deed Owner)

/-- A call of a function, with what it does. -/
abbrev Call (α : Type u) := Journal Effect α

/-- `command.c`. -/
def commandFile : Text := ⟨ascii "command.c", ascii_plain (by decide)⟩

/-- `worker.c`. -/
def workerFile : Text := ⟨ascii "worker.c", ascii_plain (by decide)⟩

/-- `return JP_ERRNO_RAISE(err)`, with what else the caller goes on with. -/
def raise (file : Text) (line : Int32) (err : Errno) (result : α) : Call (Errno × α) where
  value := (err, result)
  entries := [.raised (jpErrnoCtxSet err .srcNone 0 file line)]

/-- `return JP_ERRNO_RAISEF(err, …)`. -/
def raisef (file : Text) (line : Int32) (err : Errno) (text : Text) (result : α) :
    Call (Errno × α) where
  value := (err, result)
  entries := [.raised (jpErrnoCtxSetf err .srcNone 0 file line text)]

/-- `JP_ERRNO_RAISE_POSIX(err, code)`. -/
def raisePosix (file : Text) (line : Int32) (err : Errno) (code : Nat) : Journal ErrnoCtx Unit :=
  Journal.note (jpErrnoCtxSet err .srcPosix (Int32.ofNat code) file line)

@[simp] theorem raise_value (file : Text) (line : Int32) (err : Errno) (result : α) :
    (raise file line err result).value = (err, result) := rfl

@[simp] theorem raisef_value (file : Text) (line : Int32) (err : Errno) (text : Text) (result : α) :
    (raisef file line err text result).value = (err, result) := rfl

/-- `jp_mem_malloc` or `jp_mem_strdup`, into this pointer. -/
def allocate (owner : Owner) : Call PUnit := Journal.note (.memory (.allocate owner))

/-- `JP_FREE`. -/
def release (owner : Owner) : Call PUnit := Journal.note (.memory (.release owner))

/-- `JP_FREE` of one after the other. -/
def releaseAll : List Owner → Call PUnit
  | [] => pure ⟨⟩
  | owner :: rest => do
    release owner
    releaseAll rest

/-- What one pointer owns becomes what another one does. -/
def move (source target : Owner) : Call PUnit := Journal.note (.memory (.move source target))

/-- The contexts that entries of a journal leave. -/
def raised (entries : List Effect) : List ErrnoCtx :=
  entries.filterMap fun
    | .raised ctx => some ctx
    | .memory _ => none

/-- The context of a thread after these entries: that of the last error raised. -/
def ErrnoCtx.after (before : ErrnoCtx) (entries : List Effect) : ErrnoCtx :=
  (raised entries).getLast?.getD before

end JPipe
