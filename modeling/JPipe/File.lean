import JPipe.Errno
import Mathlib.Data.List.Basic

/-!
# Writing an array of buffers

`jp_file_writev` writes the buffers of an array to the descriptor and resumes
after short counts by changing the entries of the array it was given, so the
array after the call is part of its result. Pointers are an allocation and an
offset into it, and memory gives a byte for each of them: past the end of an
allocation stands whatever the heap holds there.

The answers of `writev` are a script. A count above what the call asked for is
not an answer `writev` can give, and a script that ends before the call returns
leaves it waiting; both have no result.
-/

namespace JPipe

/-- An address: an allocation and an offset into it. -/
@[ext] structure Pointer where
  allocation : Nat
  offset : Nat
deriving DecidableEq, Repr

/-- The bytes from each address on. -/
abbrev Memory := Nat → Nat → Byte

/-- `struct iovec`. -/
structure Iovec where
  base : Pointer
  len : Nat
deriving DecidableEq, Repr

/-- The bytes an entry refers to. -/
def Iovec.content (memory : Memory) (entry : Iovec) : List Byte :=
  (List.range entry.len).map fun index =>
    memory entry.base.allocation (entry.base.offset + index)

/-- The bytes an array of entries refers to. -/
def contents (memory : Memory) (iov : List Iovec) : List Byte :=
  iov.flatMap (Iovec.content memory)

/-- The bytes a call of `writev` asks for. -/
def requested (iov : List Iovec) : Nat := (iov.map Iovec.len).sum

/-- One answer of `writev`: a count, `EINTR`, or another error. -/
inductive WritevResult where
  | wrote (status : Nat)
  | eintr
  | failed
deriving DecidableEq, Repr

/-- The loop of `jp_file_writev` over the entries a count covers: those passed,
those left, and what remains of the count. -/
def skipWritten : List Iovec → Nat → List Iovec × List Iovec × Nat
  | [], status => ([], [], status)
  | entry :: rest, status =>
    if status ≥ entry.len then
      let (passed, left, remaining) := skipWritten rest (status - entry.len)
      (entry :: passed, left, remaining)
    else ([], entry :: rest, status)

/-- The first entry left is moved past what was written of it. -/
def advanceFirst : List Iovec → Nat → List Iovec
  | [], _ => []
  | entry :: rest, status =>
    if status > 0 then
      { base := { entry.base with offset := entry.base.offset + status },
        len := entry.len - status } :: rest
    else entry :: rest

/-- A returned call of `jp_file_writev`: the array it leaves, the bytes that
reached the descriptor, the answers not used and the status. -/
structure WritevCall where
  iov : List Iovec
  written : List Byte
  script : List WritevResult
  err : Errno

/-- The loop of `jp_file_writev`: `passed` are the entries before `iov`, the
others are the `count` entries from it on. -/
def writevLoop (memory : Memory) :
    List WritevResult → List Iovec → List Iovec → List Byte → Option WritevCall
  | script, passed, [], written => some ⟨passed, written, script, .ok⟩
  | [], _, _ :: _, _ => none
  | .eintr :: script, passed, entry :: rest, written =>
    writevLoop memory script passed (entry :: rest) written
  | .failed :: script, passed, entry :: rest, written =>
    some ⟨passed ++ entry :: rest, written, script, .ewriteFailed⟩
  | .wrote status :: script, passed, entry :: rest, written =>
    if status > requested (entry :: rest) then none
    else if status = 0 then some ⟨passed ++ entry :: rest, written, script, .ewriteFailed⟩
    else
      let (skipped, left, remaining) := skipWritten (entry :: rest) status
      writevLoop memory script (passed ++ skipped) (advanceFirst left remaining)
        (written ++ (contents memory (entry :: rest)).take status)

/-- `jp_file_writev`. -/
def jpFileWritev (memory : Memory) (iov : List Iovec) (script : List WritevResult) :
    Option WritevCall :=
  writevLoop memory script [] iov []

/-! ### Partial sums -/

/-- Every partial sum of the counts is a partial sum of the sizes. -/
def Aligned (counts sizes : List Nat) : Prop :=
  ∀ taken, ∃ passed, (counts.take taken).sum = (sizes.take passed).sum

/-- A partial sum is at most the sum. -/
theorem partial_sum_le (sizes : List Nat) (taken : Nat) : (sizes.take taken).sum ≤ sizes.sum := by
  have split : (sizes.take taken).sum + (sizes.drop taken).sum = sizes.sum := by
    rw [← List.sum_append, List.take_append_drop]
  omega

/-- A partial sum of a concatenation is a partial sum of its front, or one of its
back on top of the whole front. -/
theorem partial_sum_append (front back : List Nat) (taken : Nat) :
    ((front ++ back).take taken).sum =
      (front.take taken).sum + (back.take (taken - front.length)).sum := by
  rw [List.take_append, List.sum_append]

/-- The partial sums of equal fronts and of the backs are aligned one by one. -/
theorem aligned_append_iff (counts more sizes others : List Nat) (same : counts.sum = sizes.sum) :
    Aligned (counts ++ more) (sizes ++ others) ↔ Aligned counts sizes ∧ Aligned more others := by
  constructor
  · intro aligned
    refine ⟨fun taken => ?_, fun taken => ?_⟩
    · obtain ⟨passed, reached⟩ := aligned (min taken counts.length)
      rw [partial_sum_append, partial_sum_append] at reached
      have none : min taken counts.length - counts.length = 0 := by omega
      have front := partial_sum_le counts taken
      have whole : (counts.take (min taken counts.length)).sum = (counts.take taken).sum := by
        rw [← List.take_take, List.take_length]
      rw [none, List.take_zero, List.sum_nil, Nat.add_zero, whole] at reached
      by_cases inside : passed ≤ sizes.length
      · have short : passed - sizes.length = 0 := by omega
        rw [short, List.take_zero, List.sum_nil, Nat.add_zero] at reached
        exact ⟨passed, reached⟩
      · refine ⟨sizes.length, ?_⟩
        rw [List.take_of_length_le (by omega : sizes.length ≤ passed)] at reached
        rw [List.take_length]
        omega
    · obtain ⟨passed, reached⟩ := aligned (counts.length + taken)
      rw [partial_sum_append, partial_sum_append,
        List.take_of_length_le (by omega : counts.length ≤ counts.length + taken),
        Nat.add_sub_cancel_left] at reached
      by_cases inside : passed ≤ sizes.length
      · refine ⟨0, ?_⟩
        have short : passed - sizes.length = 0 := by omega
        have front := partial_sum_le sizes passed
        rw [short, List.take_zero, List.sum_nil] at reached
        rw [List.take_zero, List.sum_nil]
        omega
      · refine ⟨passed - sizes.length, ?_⟩
        rw [List.take_of_length_le (by omega : sizes.length ≤ passed)] at reached
        omega
  · rintro ⟨front, back⟩ taken
    by_cases inside : taken ≤ counts.length
    · obtain ⟨passed, reached⟩ := front taken
      refine ⟨min passed sizes.length, ?_⟩
      have short : taken - counts.length = 0 := by omega
      have none : min passed sizes.length - sizes.length = 0 := by omega
      rw [partial_sum_append, partial_sum_append, short, none, ← List.take_take, List.take_length]
      simpa using reached
    · obtain ⟨passed, reached⟩ := back (taken - counts.length)
      refine ⟨sizes.length + passed, ?_⟩
      rw [partial_sum_append, partial_sum_append,
        List.take_of_length_le (by omega : counts.length ≤ taken),
        List.take_of_length_le (by omega : sizes.length ≤ sizes.length + passed),
        Nat.add_sub_cancel_left, same, reached]

/-- A single count of everything is aligned. -/
theorem aligned_whole (sizes : List Nat) : Aligned [sizes.sum] sizes := by
  intro taken
  cases taken with
  | zero => exact ⟨0, rfl⟩
  | succ taken => exact ⟨sizes.length, by simp⟩

/-- A first count that ends inside a size is not aligned. -/
theorem aligned_inside (front : List Nat) (size : Nat) (others more : List Nat) {status : Nat}
    (above : front.sum < status) (below : status < front.sum + size) :
    ¬ Aligned (status :: more) (front ++ size :: others) := by
  intro aligned
  obtain ⟨passed, reached⟩ := aligned 1
  rw [List.take_succ_cons, List.take_zero, List.sum_singleton, partial_sum_append] at reached
  by_cases inside : passed ≤ front.length
  · have short : passed - front.length = 0 := by omega
    have bound := partial_sum_le front passed
    rw [short, List.take_zero, List.sum_nil] at reached
    omega
  · obtain ⟨beyond, same⟩ : ∃ beyond, passed - front.length = beyond + 1 :=
      ⟨passed - front.length - 1, by omega⟩
    rw [List.take_of_length_le (by omega : front.length ≤ passed), same, List.take_succ_cons,
      List.sum_cons] at reached
    omega

/-! ### One call -/

/-- The counts among the answers of `writev`. -/
def counts (script : List WritevResult) : List Nat :=
  script.filterMap fun
    | .wrote status => some status
    | .eintr => none
    | .failed => none

/-- An entry keeps its allocation and its end, and never moves back. -/
structure Advanced (before after : Iovec) : Prop where
  allocation : after.base.allocation = before.base.allocation
  offset : before.base.offset ≤ after.base.offset
  reach : after.base.offset + after.len = before.base.offset + before.len

theorem advanced_refl (entry : Iovec) : Advanced entry entry := ⟨rfl, Nat.le_refl _, rfl⟩

theorem advanced_trans {first second third : Iovec} (front : Advanced first second)
    (back : Advanced second third) : Advanced first third :=
  ⟨back.allocation.trans front.allocation, Nat.le_trans front.offset back.offset,
    back.reach.trans front.reach⟩

/-- An entry whose base did not change is as it was. -/
theorem advanced_still {before after : Iovec} (advanced : Advanced before after)
    (still : after.base = before.base) : after = before := by
  have reach := advanced.reach
  cases before
  cases after
  simp only at still reach
  subst still
  simpa using reach

/-- Entries that never move back over two calls never move back over both. -/
theorem all_advanced_trans {first second third : List Iovec}
    (front : List.Forall₂ Advanced first second) (back : List.Forall₂ Advanced second third) :
    List.Forall₂ Advanced first third := by
  induction front generalizing third with
  | nil => exact back
  | cons step _ ih =>
    cases back with
    | cons further rest => exact .cons (advanced_trans step further) (ih rest)

/-- Moving the first entry moves it on. -/
theorem advance_first_advanced (left : List Iovec) (remaining : Nat)
    (partway : ∀ entry rest, left = entry :: rest → remaining < entry.len) :
    List.Forall₂ Advanced left (advanceFirst left remaining) := by
  cases left with
  | nil => exact .nil
  | cons entry rest =>
    have inside : remaining < entry.len := partway entry rest rfl
    rw [advanceFirst]
    split
    · refine .cons ⟨rfl, Nat.le_add_right _ _, ?_⟩
        (List.forall₂_same.mpr fun other _ => advanced_refl other)
      simp only
      omega
    · exact List.forall₂_same.mpr fun other _ => advanced_refl other

/-- Entries none of which changed its base are as they were. -/
theorem all_advanced_still {before after : List Iovec} (advanced : List.Forall₂ Advanced before after)
    (still : after.map Iovec.base = before.map Iovec.base) : after = before := by
  induction advanced with
  | nil => rfl
  | cons step _ ih =>
    simp only [List.map_cons, List.cons.injEq] at still
    rw [advanced_still step still.1, ih still.2]

/-- What skipping the entries a count covers leaves. -/
structure Skips (pending : List Iovec) (status : Nat)
    (result : List Iovec × List Iovec × Nat) : Prop where
  split : pending = result.1 ++ result.2.1
  amount : requested result.1 + result.2.2 = status
  finished : result.2.1 = [] → result.2.2 = 0
  partway : ∀ entry rest, result.2.1 = entry :: rest → result.2.2 < entry.len

/-- A count of at most what was asked for is used up by the entries. -/
theorem skip_written_skips (pending : List Iovec) (status : Nat)
    (bounded : status ≤ requested pending) : Skips pending status (skipWritten pending status) := by
  fun_induction skipWritten pending status with
  | case1 status =>
    have none : status = 0 := Nat.le_zero.mp bounded
    exact ⟨rfl, none.symm ▸ rfl, fun _ => none, fun _ _ wrong => absurd wrong (by simp)⟩
  | case2 entry rest status covered passed left remaining skipped ih =>
    have total : requested (entry :: rest) = entry.len + requested rest := by simp [requested]
    obtain ⟨split, amount, finished, partway⟩ := ih (by omega)
    rw [skipped] at split amount finished partway
    refine ⟨by rw [split]; rfl, ?_, finished, partway⟩
    have grown : requested (entry :: passed) = entry.len + requested passed := by simp [requested]
    simp only at amount ⊢
    omega
  | case3 entry rest status short =>
    refine ⟨rfl, by simp [requested], by simp, ?_⟩
    intro first others same
    simp only [List.cons.injEq] at same
    rw [← same.1]
    exact Nat.not_le.mp short

/-- The bytes of an entry are as many as it says. -/
theorem content_length (memory : Memory) (entry : Iovec) :
    (entry.content memory).length = entry.len := by
  simp [Iovec.content]

/-- The bytes of an array are as many as a call asks for. -/
theorem contents_length (memory : Memory) (iov : List Iovec) :
    (contents memory iov).length = requested iov := by
  simp [contents, requested, List.length_flatMap, content_length]

/-- Moving the first entry drops the bytes written of it. -/
theorem contents_advance (memory : Memory) (left : List Iovec) (remaining : Nat)
    (partway : ∀ entry rest, left = entry :: rest → remaining < entry.len) :
    contents memory (advanceFirst left remaining) = (contents memory left).drop remaining := by
  cases left with
  | nil => simp [advanceFirst, contents]
  | cons entry rest =>
    have inside : remaining < entry.len := partway entry rest rfl
    have moved (base : Pointer) (len : Nat) :
        (Iovec.mk { base with offset := base.offset + remaining } (len - remaining)).content memory =
          ((Iovec.mk base len).content memory).drop remaining := by
      apply List.ext_getElem
      · simp [Iovec.content]
      · intro index _ _
        simp [Iovec.content, Nat.add_assoc]
    have size := content_length memory entry
    by_cases whole : remaining = 0
    · simp [advanceFirst, whole]
    · have some : remaining > 0 := Nat.pos_of_ne_zero whole
      rw [advanceFirst, if_pos some, contents, List.flatMap_cons, moved, contents, List.flatMap_cons,
        List.drop_append_of_le_length (by omega)]

/-- The bytes a count covers and those of what is left are the bytes asked for. -/
theorem contents_resumed (memory : Memory) {pending : List Iovec} {status : Nat}
    {result : List Iovec × List Iovec × Nat} (skips : Skips pending status result) :
    (contents memory pending).take status ++
      contents memory (advanceFirst result.2.1 result.2.2) = contents memory pending := by
  have whole : contents memory pending =
      contents memory result.1 ++ contents memory result.2.1 := by
    rw [skips.split, contents, List.flatMap_append]
    rfl
  have covered : status = (contents memory result.1).length + result.2.2 := by
    rw [contents_length, skips.amount]
  rw [contents_advance memory result.2.1 result.2.2 skips.partway, whole, covered,
    List.take_length_add_append, List.append_assoc, List.take_append_drop]

/-- A returned call.

No entry changed its allocation or moved back, and the entries are where they
were exactly when every count used ended at the end of an entry: also after a
failure. With success the counts add up to the bytes asked for, and these reached
the descriptor in order. -/
structure Delivers (memory : Memory) (script : List WritevResult) (passed iov : List Iovec)
    (written : List Byte) (call : WritevCall) : Prop where
  delivered : call.err = .ok → call.written = written ++ contents memory iov
  resumes : ∃ used after, script = used ++ call.script ∧ call.iov = passed ++ after ∧
    (call.err = .ok → (counts used).sum = requested iov) ∧ List.Forall₂ Advanced iov after ∧
    (after.map Iovec.base = iov.map Iovec.base ↔ Aligned (counts used) (iov.map Iovec.len))

/-- A call that an answer ends at once has moved no entry. -/
theorem unmoved_delivers (memory : Memory) {answer : WritevResult} (script : List WritevResult)
    (passed iov : List Iovec) (written : List Byte) (unmoved : (counts [answer]).sum = 0) :
    Delivers memory (answer :: script) passed iov written
      ⟨passed ++ iov, written, script, .ewriteFailed⟩ := by
  refine ⟨by simp, [answer], iov, rfl, rfl, by simp,
    List.forall₂_same.mpr fun other _ => advanced_refl other, iff_of_true rfl fun taken => ?_⟩
  have bound := partial_sum_le (counts [answer]) taken
  exact ⟨0, by rw [List.take_zero, List.sum_nil]; omega⟩

/-- Every returned call moves its entries as its counts say, and delivers the bytes of
its array if it reports success.

Induct over the answers. `EINTR` and the skipped entries leave what is asked for
as it is; a count that ends inside an entry moves that entry for good. -/
theorem writev_loop_delivers (memory : Memory) (script : List WritevResult)
    (passed iov : List Iovec) (written : List Byte) (call : WritevCall)
    (returned : writevLoop memory script passed iov written = some call) :
    Delivers memory script passed iov written call := by
  fun_induction writevLoop memory script passed iov written with
  | case1 script passed written =>
    simp only [Option.some.injEq] at returned
    subst returned
    refine ⟨by simp [contents], [], [], rfl, by simp, fun _ => rfl, .nil, ?_⟩
    simp [Aligned, counts]
  | case2 => simp at returned
  | case3 passed written script entry rest ih =>
    obtain ⟨delivered, used, after, split, array, total, advanced, kept⟩ := ih returned
    exact ⟨delivered, .eintr :: used, after, by rw [split]; rfl, array, total, advanced, kept⟩
  | case4 script passed entry rest written =>
    obtain rfl := Option.some.inj returned
    exact unmoved_delivers memory script passed (entry :: rest) written rfl
  | case5 => simp at returned
  | case6 script passed entry rest written =>
    obtain rfl := Option.some.inj returned
    exact unmoved_delivers memory script passed (entry :: rest) written rfl
  | case7 status script passed entry rest written bounded _ skipped left remaining skipping ih =>
    have skips := skip_written_skips (entry :: rest) status (Nat.not_lt.mp bounded)
    rw [skipping] at skips
    have resumed := contents_resumed memory skips
    have size := congrArg List.length resumed
    rw [List.length_append, List.length_take, contents_length, contents_length] at size
    obtain ⟨split, amount, finished, partway⟩ := skips
    obtain ⟨delivered, used, after, answers, array, total, advanced, kept⟩ := ih returned
    simp only at split amount finished partway resumed size
    have counted : counts (.wrote status :: used) = status :: counts used := rfl
    have passedStill : List.Forall₂ Advanced skipped skipped :=
      List.forall₂_same.mpr fun other _ => advanced_refl other
    refine ⟨?_, .wrote status :: used, skipped ++ after, by rw [answers]; rfl, ?_, ?_, ?_, ?_⟩
    · intro succeeded
      rw [delivered succeeded, List.append_assoc, resumed]
    · rw [array, List.append_assoc]
    · intro succeeded
      rw [counted, List.sum_cons, total succeeded]
      omega
    · rw [split]
      exact List.rel_append passedStill
        (all_advanced_trans (advance_first_advanced left remaining partway) advanced)
    · rw [counted, split, List.map_append, List.map_append, List.map_append,
        List.append_cancel_left_eq]
      cases remaining with
      | zero =>
        have still : advanceFirst left 0 = left := by cases left <;> rfl
        rw [still] at kept
        have whole := aligned_whole (skipped.map Iovec.len)
        rw [show (skipped.map Iovec.len).sum = status from amount] at whole
        rw [kept, ← List.singleton_append, aligned_append_iff [status] (counts used) _ _
          (by simpa [requested] using amount.symm)]
        exact (and_iff_right whole).symm
      | succ remaining =>
        cases left with
        | nil => exact absurd (finished rfl) (Nat.succ_ne_zero remaining)
        | cons first others =>
          have inside := partway first others rfl
          rw [requested] at amount
          have apart := aligned_inside (skipped.map Iovec.len) first.len (others.map Iovec.len)
            (counts used) (by omega : _ < status) (by omega)
          refine iff_of_false ?_ apart
          intro same
          cases advanced with
          | cons moved _ =>
            simp only [List.map_cons, List.cons.injEq] at same
            have beyond : first.base.offset + (remaining + 1) ≤ _ := moved.offset
            rw [same.1] at beyond
            omega

/-- An answer after which `jp_file_writev` goes on: a positive count or `EINTR`. -/
def Resumable : WritevResult → Prop
  | .wrote status => 0 < status
  | .eintr => True
  | .failed => False

instance : DecidablePred Resumable
  | .wrote status => inferInstanceAs (Decidable (0 < status))
  | .eintr => inferInstanceAs (Decidable True)
  | .failed => inferInstanceAs (Decidable False)

/-- Without a failure among the answers a returned call reports success. -/
theorem writev_loop_succeeds (memory : Memory) (script : List WritevResult)
    (passed iov : List Iovec) (written : List Byte) (call : WritevCall)
    (resumable : ∀ answer ∈ script, Resumable answer)
    (returned : writevLoop memory script passed iov written = some call) : call.err = .ok := by
  fun_induction writevLoop memory script passed iov written with
  | case1 =>
    simp only [Option.some.injEq] at returned
    exact returned ▸ rfl
  | case2 => simp at returned
  | case3 passed written script entry rest ih =>
    exact ih (fun answer member => resumable answer (List.mem_cons_of_mem _ member)) returned
  | case4 => exact absurd (resumable .failed List.mem_cons_self) id
  | case5 => simp at returned
  | case6 => exact absurd (resumable (.wrote 0) List.mem_cons_self) (Nat.lt_irrefl 0)
  | case7 status script passed entry rest written bounded some skipped left remaining passing ih =>
    exact ih (fun answer member => resumable answer (List.mem_cons_of_mem _ member)) returned

end JPipe
