import JPipe.FieldSets
import JPipe.Numeral
import JPipe.Queue

/-!
# The settings of a run

The functions of `worker.c` that store the argument of an option in the context
of the worker. Each answers a status together with the context after the call, and
keeps a journal of what it frees, allocates and raises; an option without an argument
is `NULL` in the source and `none` here.

The two sizes are read with `strtoull`, which accepts a minus sign and converts
what follows it modulo 2^64. The bounds are tested on the converted value only.
-/

namespace JPipe

open Printf

/-- `BYTES_IN_KB`. -/
def bytesInKb : Nat := 1024

/-- `JP_PATH_MAX`. -/
def pathMax : Nat := 4096

/-- `JP_CONF_CHUNK_SIZE_MIN`. -/
def confChunkSizeMin : Nat := 1024

/-- `JP_CONF_CHUNK_SIZE_DEF`. -/
def confChunkSizeDef : Nat := 16384

/-- `JP_CONF_CHUNK_SIZE_MAX`. -/
def confChunkSizeMax : Nat := 131072

/-- `JP_CONF_BUFFER_SIZE_MIN`. -/
def confBufferSizeMin : Nat := 1

/-- `JP_CONF_BUFFER_SIZE_DEF`. -/
def confBufferSizeDef : Nat := 64

/-- `JP_CONF_BUFFER_SIZE_MAX`. -/
def confBufferSizeMax : Nat := 1024

/-- `JP_CONF_FIELDS_MAX`. -/
def confFieldsMax : Nat := 32

/-- `worker_ctx_t`, without the stream and the queue, which no option sets. -/
structure WorkerCtx where
  dryRun : Bool
  chunkSize : Nat
  bufferSize : Nat
  policy : Policy
  fields : FieldSet
  outDir : Option (List Byte)
deriving DecidableEq, Repr

/-- `kb`. -/
def kilobytes : List Byte := [0x6b, 0x62]

/-- `"Path is too long. Maximum allowed length: %d"`. -/
def pathTooLong : Text where
  bytes := ascii "Path is too long. Maximum allowed length: " ++ decimal pathMax
  plain := by
    rw [List.mem_append]
    rintro (member | member)
    · exact ascii_plain (by decide) member
    · exact decimal_plain _ member

namespace Calls

/-- `set_out_dir`: the old directory is freed before the argument is tested. -/
def setOutDir (arg : Option (List Byte)) (ctx : WorkerCtx) : Call (Errno × WorkerCtx) := do
  release .outDir
  let freed := { ctx with outDir := none }
  match arg with
  | none => raise workerFile 94 .eoutDir freed
  | some path =>
    if path.length = 0 then raise workerFile 99 .eoutDir freed
    else if path.length > pathMax then raisef workerFile 102 .eoutDir pathTooLong freed
    else
      allocate .outDir
      pure (.ok, { ctx with outDir := some path })

/-- `set_field`. -/
def setField (arg : Option (List Byte)) (ctx : WorkerCtx) : Call (Errno × WorkerCtx) :=
  match arg with
  | none => raise workerFile 111 .einvFieldKey ctx
  | some kv => do
    let (err, fields) ← jpFieldSetAdd ctx.fields kv
    let ctx := { ctx with fields }
    if err = .ok then pure (.ok, ctx)
    else if err = .etooManyField then raise workerFile 120 err ctx
    else raisef workerFile 120 err (Quotation.field.shown kv) ctx

/-- `set_chunk_size`. -/
def setChunkSize (arg : Option (List Byte)) (ctx : WorkerCtx) : Call (Errno × WorkerCtx) :=
  match arg with
  | none => raise workerFile 129 .echunkSize ctx
  | some text =>
    let param := Numeral.strtoull text
    let unread := text.drop param.consumed
    let shown := Quotation.size.shown text
    if param.range then raisef workerFile 136 .echunkSize shown ctx
    else if param.consumed = 0 then raisef workerFile 140 .echunkSize shown ctx
    else if unread ≠ [] ∧ unread = kilobytes ∧ param.value ≤ confChunkSizeMax / bytesInKb then
      let chunkSize := param.value * bytesInKb
      if chunkSize < confChunkSizeMin ∨ chunkSize > confChunkSizeMax then
        raisef workerFile 150 .echunkSize shown ctx
      else pure (.ok, { ctx with chunkSize })
    else raisef workerFile 146 .echunkSize shown ctx

/-- `set_buffer_size`. -/
def setBufferSize (arg : Option (List Byte)) (ctx : WorkerCtx) : Call (Errno × WorkerCtx) :=
  match arg with
  | none => raise workerFile 161 .ebufferSize ctx
  | some text =>
    let param := Numeral.strtoull text
    let shown := Quotation.size.shown text
    if param.range ∨ param.consumed = 0 ∨ text.drop param.consumed ≠ [] then
      raisef workerFile 168 .ebufferSize shown ctx
    else if param.value < confBufferSizeMin ∨ param.value > confBufferSizeMax then
      raisef workerFile 172 .ebufferSize shown ctx
    else pure (.ok, { ctx with bufferSize := param.value })

/-- `set_policy`. -/
def setPolicy (arg : Option (List Byte)) (ctx : WorkerCtx) : Call (Errno × WorkerCtx) :=
  match arg with
  | none => raise workerFile 181 .eoverflowPolicy ctx
  | some text =>
    if text = [0x77, 0x61, 0x69, 0x74] then pure (.ok, { ctx with policy := .wait })
    else if text = [0x64, 0x72, 0x6f, 0x70] then pure (.ok, { ctx with policy := .drop })
    else raisef workerFile 193 .eoverflowPolicy (Quotation.policy.shown text) ctx

end Calls

/-- What `set_out_dir` returns. -/
def setOutDir (arg : Option (List Byte)) (ctx : WorkerCtx) : Errno × WorkerCtx :=
  (Calls.setOutDir arg ctx).value

/-- What `set_field` returns. -/
def setField (arg : Option (List Byte)) (ctx : WorkerCtx) : Errno × WorkerCtx :=
  (Calls.setField arg ctx).value

/-- What `set_chunk_size` returns. -/
def setChunkSize (arg : Option (List Byte)) (ctx : WorkerCtx) : Errno × WorkerCtx :=
  (Calls.setChunkSize arg ctx).value

/-- What `set_buffer_size` returns. -/
def setBufferSize (arg : Option (List Byte)) (ctx : WorkerCtx) : Errno × WorkerCtx :=
  (Calls.setBufferSize arg ctx).value

/-- What `set_policy` returns. -/
def setPolicy (arg : Option (List Byte)) (ctx : WorkerCtx) : Errno × WorkerCtx :=
  (Calls.setPolicy arg ctx).value

/-! ### The two sizes -/

/-- A number within the bounds of the chunk size, counted in kilobytes. -/
def ChunkNumber (number : Int) : Prop := 1 ≤ number ∧ number ≤ 128

/-- A number within the bounds of the buffer size. -/
def BufferNumber (number : Int) : Prop := 1 ≤ number ∧ number ≤ 1024

/-- The chunk size is set by a number of kilobytes within its bounds and by
nothing else. -/
structure ChunkExact (arg : List Byte) (ctx : WorkerCtx) : Prop where
  accepted : ∀ head number, arg = head ++ kilobytes → Numeral.Denotes head number →
    ChunkNumber number →
    setChunkSize (some arg) ctx = (.ok, { ctx with chunkSize := number.toNat * 1024 })
  rejected : (¬ ∃ head number, arg = head ++ kilobytes ∧ Numeral.Denotes head number ∧
    ChunkNumber number) → setChunkSize (some arg) ctx = (.echunkSize, ctx)

/-- The buffer size is set by a number within its bounds and by nothing else. -/
structure BufferExact (arg : List Byte) (ctx : WorkerCtx) : Prop where
  accepted : ∀ number, Numeral.Denotes arg number → BufferNumber number →
    setBufferSize (some arg) ctx = (.ok, { ctx with bufferSize := number.toNat })
  rejected : (¬ ∃ number, Numeral.Denotes arg number ∧ BufferNumber number) →
    setBufferSize (some arg) ctx = (.ebufferSize, ctx)

/-- The chunk size is set exactly by a small value before `kb`. -/
theorem set_chunk_size_eq (text : List Byte) (ctx : WorkerCtx) :
    setChunkSize (some text) ctx =
      if (Numeral.strtoull text).range = false ∧ (Numeral.strtoull text).consumed ≠ 0 ∧
          text.drop (Numeral.strtoull text).consumed = kilobytes ∧
          0 < (Numeral.strtoull text).value ∧ (Numeral.strtoull text).value ≤ 128 then
        (.ok, { ctx with chunkSize := (Numeral.strtoull text).value * 1024 })
      else (.echunkSize, ctx) := by
  have unit : kilobytes ≠ [] := by decide
  have bound : confChunkSizeMax / bytesInKb = 128 := by decide
  rw [setChunkSize, Calls.setChunkSize]
  simp only [apply_ite Journal.value, raisef_value, Journal.pure_value]
  generalize text.drop (Numeral.strtoull text).consumed = unread
  generalize Numeral.strtoull text = param
  by_cases read : param.range = false ∧ param.consumed ≠ 0 ∧ unread = kilobytes ∧ param.value ≤ 128
  · obtain ⟨range, converted, isUnit, bounded⟩ := read
    simp only [range, converted, isUnit, unit, bound, bounded, Bool.false_eq_true, ↓reduceIte, ne_eq,
      not_false_eq_true, and_self, true_and, and_true]
    rw [bytesInKb, confChunkSizeMin, confChunkSizeMax]
    by_cases zero : param.value = 0
    · rw [if_pos (by omega), if_neg (by omega)]
    · rw [if_neg (by omega), if_pos (by omega)]
  · have refused : ¬ (param.range = false ∧ param.consumed ≠ 0 ∧ unread = kilobytes ∧
        0 < param.value ∧ param.value ≤ 128) := by tauto
    rw [if_neg refused]
    simp only [bound]
    by_cases range : param.range = true
    · rw [if_pos range]
    · by_cases none : param.consumed = 0
      · rw [if_neg range, if_pos none]
      · rw [if_neg range, if_neg none, if_neg]
        intro accepted
        exact read ⟨Bool.eq_false_iff.mpr range, none, accepted.2⟩

/-- The buffer size is set exactly by a small value with nothing after it. -/
theorem set_buffer_size_eq (text : List Byte) (ctx : WorkerCtx) :
    setBufferSize (some text) ctx =
      if (Numeral.strtoull text).range = false ∧ (Numeral.strtoull text).consumed ≠ 0 ∧
          text.drop (Numeral.strtoull text).consumed = [] ∧
          0 < (Numeral.strtoull text).value ∧ (Numeral.strtoull text).value ≤ 1024 then
        (.ok, { ctx with bufferSize := (Numeral.strtoull text).value })
      else (.ebufferSize, ctx) := by
  rw [setBufferSize, Calls.setBufferSize]
  simp only [apply_ite Journal.value, raisef_value, Journal.pure_value]
  generalize text.drop (Numeral.strtoull text).consumed = unread
  generalize Numeral.strtoull text = param
  have bounds : param.value < confBufferSizeMin ∨ param.value > confBufferSizeMax ↔
      ¬ (0 < param.value ∧ param.value ≤ 1024) := by
    rw [confBufferSizeMin, confBufferSizeMax]
    omega
  by_cases read : param.range = false ∧ param.consumed ≠ 0 ∧ unread = []
  · obtain ⟨range, converted, ended⟩ := read
    have whole : ¬ (param.range = true ∨ param.consumed = 0 ∨ unread ≠ []) := by
      simp [range, converted, ended]
    rw [if_neg whole]
    by_cases small : 0 < param.value ∧ param.value ≤ 1024
    · rw [if_neg (fun outside => bounds.mp outside small),
        if_pos ⟨range, converted, ended, small⟩]
    · rw [if_pos (bounds.mpr small), if_neg (fun accepted => small accepted.2.2.2)]
  · have refused : ¬ (param.range = false ∧ param.consumed ≠ 0 ∧ unread = [] ∧
        0 < param.value ∧ param.value ≤ 1024) := by tauto
    simp only [not_and_or, not_not, Bool.not_eq_false] at read
    rw [if_neg refused, if_pos read]

/-- The output directory is set exactly by a path that is not empty and not too long;
another one leaves none. -/
theorem set_out_dir_eq (path : List Byte) (ctx : WorkerCtx) :
    setOutDir (some path) ctx =
      if path ≠ [] ∧ path.length ≤ pathMax then (.ok, { ctx with outDir := some path })
      else (.eoutDir, { ctx with outDir := none }) := by
  rw [setOutDir, Calls.setOutDir, Journal.monad_bind, Journal.bind_value]
  simp only [apply_ite Journal.value, raise_value, raisef_value, Journal.monad_bind,
    Journal.bind_value, Journal.pure_value]
  by_cases empty : path.length = 0
  · rw [if_pos empty, if_neg (by simp [List.length_eq_zero_iff.mp empty])]
  · have some : path ≠ [] := fun same => empty (List.length_eq_zero_iff.mpr same)
    by_cases long : path.length > pathMax
    · rw [if_neg empty, if_pos long, if_neg fun fits => Nat.not_le.mpr long fits.2]
    · rw [if_neg empty, if_neg long, if_pos ⟨some, Nat.not_lt.mp long⟩]

/-- A field is set by adding it to the set. -/
theorem set_field_eq (kv : List Byte) (ctx : WorkerCtx) :
    setField (some kv) ctx =
      ((jpFieldSetAdd ctx.fields kv).1, { ctx with fields := (jpFieldSetAdd ctx.fields kv).2 }) := by
  rw [setField, Calls.setField, Journal.monad_bind, Journal.bind_value, jpFieldSetAdd]
  generalize (Calls.jpFieldSetAdd ctx.fields kv).value = added
  obtain ⟨err, fields⟩ := added
  simp only [apply_ite Journal.value, raise_value, raisef_value, Journal.pure_value]
  split_ifs with succeeded
  · rw [succeeded]
  · rfl
  · rfl

/-! ### What a call leaves as it was -/

/-- Two contexts with the same output directory and the same kind of run. -/
structure SameRun (ctx after : WorkerCtx) : Prop where
  outDir : after.outDir = ctx.outDir
  dryRun : after.dryRun = ctx.dryRun

theorem set_chunk_size_frame (arg : Option (List Byte)) (ctx : WorkerCtx) :
    SameRun ctx (setChunkSize arg ctx).2 := by
  cases arg with
  | none => exact ⟨rfl, rfl⟩
  | some text =>
    rw [set_chunk_size_eq]
    split_ifs <;> exact ⟨rfl, rfl⟩

theorem set_buffer_size_frame (arg : Option (List Byte)) (ctx : WorkerCtx) :
    SameRun ctx (setBufferSize arg ctx).2 := by
  cases arg with
  | none => exact ⟨rfl, rfl⟩
  | some text =>
    rw [set_buffer_size_eq]
    split_ifs <;> exact ⟨rfl, rfl⟩

theorem set_policy_frame (arg : Option (List Byte)) (ctx : WorkerCtx) :
    SameRun ctx (setPolicy arg ctx).2 := by
  cases arg with
  | none => exact ⟨rfl, rfl⟩
  | some text =>
    rw [setPolicy, Calls.setPolicy]
    split_ifs <;> exact ⟨rfl, rfl⟩

theorem set_field_frame (arg : Option (List Byte)) (ctx : WorkerCtx) :
    SameRun ctx (setField arg ctx).2 := by
  cases arg with
  | none => exact ⟨rfl, rfl⟩
  | some kv =>
    rw [set_field_eq]
    exact ⟨rfl, rfl⟩

/-! ### Which arguments are accepted -/

/-- The chunk size is set by exactly the documented arguments unless the argument
is a negative number of kilobytes that wraps to one within the bounds. -/
theorem chunk_exact_iff (arg : List Byte) (ctx : WorkerCtx) :
    ChunkExact arg ctx ↔
      ¬ ∃ head number, arg = head ++ kilobytes ∧ Numeral.Denotes head number ∧
        Numeral.Wraps 128 number := by
  have ended : ∀ byte ∈ kilobytes.head?, Numeral.isDigit byte = false := by
    simp [kilobytes, Numeral.isDigit]
  have set := set_chunk_size_eq arg ctx
  have read := Numeral.read_small_iff arg (by decide : 128 < 2 ^ 64) ended
  constructor
  · intro exact wrapped
    obtain ⟨head, number, split, denotes, wraps⟩ := wrapped
    rw [if_pos (read.mpr ⟨head, number, split, denotes, Or.inr wraps⟩)] at set
    have refused : ¬ ∃ head number, arg = head ++ kilobytes ∧ Numeral.Denotes head number ∧
        ChunkNumber number := by
      intro documented
      obtain ⟨other, small, otherSplit, otherDenotes, within⟩ := documented
      obtain rfl := List.append_cancel_right (split.symm.trans otherSplit)
      have same := Numeral.denotes_unique denotes otherDenotes
      have positive := within.1
      have negative := wraps.2
      omega
    rw [exact.rejected refused] at set
    cases set
  · intro apart
    constructor
    · intro head number split denotes within
      rw [if_pos (read.mpr ⟨head, number, split, denotes, Or.inl within⟩), split,
        Numeral.strtoull_denotes denotes ended,
        Numeral.convert_value head.length (by decide : 128 < 2 ^ 64) within.1 within.2] at set
      exact split ▸ set
    · intro none
      rw [if_neg] at set
      · exact set
      · intro accepted
        obtain ⟨head, number, split, denotes, within | wraps⟩ := read.mp accepted
        · exact none ⟨head, number, split, denotes, within⟩
        · exact apart ⟨head, number, split, denotes, wraps⟩

/-- The buffer size is set by exactly the documented arguments unless the argument
is a negative number that wraps to one within the bounds. -/
theorem buffer_exact_iff (arg : List Byte) (ctx : WorkerCtx) :
    BufferExact arg ctx ↔
      ¬ ∃ number, Numeral.Denotes arg number ∧ Numeral.Wraps 1024 number := by
  have ended : ∀ byte ∈ ([] : List Byte).head?, Numeral.isDigit byte = false := by simp
  have set := set_buffer_size_eq arg ctx
  have read := Numeral.read_small_iff arg (by decide : 1024 < 2 ^ 64) ended
  simp only [List.append_nil] at read
  constructor
  · intro exact ⟨number, denotes, wraps⟩
    rw [if_pos (read.mpr ⟨arg, number, rfl, denotes, Or.inr wraps⟩)] at set
    have refused : ¬ ∃ number, Numeral.Denotes arg number ∧ BufferNumber number := by
      intro ⟨small, otherDenotes, within⟩
      have same := Numeral.denotes_unique denotes otherDenotes
      have positive := within.1
      have negative := wraps.2
      omega
    rw [exact.rejected refused] at set
    cases set
  · intro apart
    constructor
    · intro number denotes within
      have whole := Numeral.strtoull_denotes denotes ended
      rw [List.append_nil] at whole
      rw [if_pos (read.mpr ⟨arg, number, rfl, denotes, Or.inl within⟩), whole,
        Numeral.convert_value arg.length (by decide : 1024 < 2 ^ 64) within.1 within.2] at set
      exact set
    · intro none
      rw [if_neg] at set
      · exact set
      · intro accepted
        obtain ⟨head, number, split, denotes, within | wraps⟩ := read.mp accepted
        · exact none ⟨number, split ▸ denotes, within⟩
        · exact apart ⟨number, split ▸ denotes, wraps⟩

/-- For every argument and context, each size is set by exactly the documented
arguments unless the argument is a negative number so large that it wraps. -/
theorem sizes_exact_iff (arg : List Byte) (ctx : WorkerCtx) :
    (ChunkExact arg ctx ↔
      ¬ ∃ head number, arg = head ++ kilobytes ∧ Numeral.Denotes head number ∧
        Numeral.Wraps 128 number) ∧
    (BufferExact arg ctx ↔
      ¬ ∃ number, Numeral.Denotes arg number ∧ Numeral.Wraps 1024 number) :=
  ⟨chunk_exact_iff arg ctx, buffer_exact_iff arg ctx⟩

/-- The context before any option is read. -/
def workerDefaults : WorkerCtx where
  dryRun := false
  chunkSize := confChunkSizeDef
  bufferSize := confBufferSizeDef
  policy := .wait
  fields := jpFieldSetCreate confFieldsMax
  outDir := none

/-- `-18446744073709551615`. -/
def wrappedOne : List Byte := [
  0x2d, 0x31, 0x38, 0x34, 0x34, 0x36, 0x37, 0x34, 0x34, 0x30, 0x37, 0x33, 0x37, 0x30, 0x39, 0x35,
  0x35, 0x31, 0x36, 0x31, 0x35]

/-- A number of twenty digits below zero sets a buffer of one block, and as a
number of kilobytes a chunk of one. -/
theorem negative_size_accepted :
    setBufferSize (some wrappedOne) workerDefaults = (.ok, { workerDefaults with bufferSize := 1 }) ∧
      setChunkSize (some (wrappedOne ++ kilobytes)) workerDefaults =
        (.ok, { workerDefaults with chunkSize := 1024 }) ∧
      ¬ BufferExact wrappedOne workerDefaults ∧
      ¬ ChunkExact (wrappedOne ++ kilobytes) workerDefaults := by
  have decimal : (wrappedOne.drop 1).all Numeral.isDigit = true := by decide
  have denotes : Numeral.Denotes wrappedOne (-18446744073709551615) :=
    Numeral.Denotes.negative [] (wrappedOne.drop 1) (by simp) (by decide)
      (List.all_eq_true.mp decimal)
  have buffer : setBufferSize (some wrappedOne) workerDefaults =
      (.ok, { workerDefaults with bufferSize := 1 }) := by decide
  have chunk : setChunkSize (some (wrappedOne ++ kilobytes)) workerDefaults =
      (.ok, { workerDefaults with chunkSize := 1024 }) := by decide
  have negative (number : Int) (also : Numeral.Denotes wrappedOne number) : ¬ 1 ≤ number := by
    rw [Numeral.denotes_unique also denotes]
    decide
  refine ⟨buffer, chunk, ?_, ?_⟩
  · intro exact
    rw [exact.rejected (fun ⟨number, also, within⟩ => negative number also within.1)] at buffer
    exact absurd buffer (by decide)
  · intro exact
    have none : ¬ ∃ head number, wrappedOne ++ kilobytes = head ++ kilobytes ∧
        Numeral.Denotes head number ∧ ChunkNumber number := by
      intro ⟨head, number, split, also, within⟩
      rw [← List.append_cancel_right split] at also
      exact negative number also within.1
    rw [exact.rejected none] at chunk
    exact absurd chunk (by decide)

end JPipe
