import JPipe.File
import JPipe.Writer
import JPipe.Payloads

/-!
# The writer over `writev`

The writer keeps one array of three entries for its whole run and refreshes only
the length of the second one for each record, while `jp_file_writev` resumes a
short count by changing the entries themselves. A count that ends inside an entry
therefore cuts the front off that entry for every later record, and moves the
pointer the writer frees at the end.
-/

namespace JPipe

/-- The descriptor's side of a run: the `iovec` array, memory, the bytes that
reached the descriptor and the answers `writev` has left to give. -/
structure WriterIo where
  iov : List Iovec
  memory : Memory
  output : List Byte
  script : List WritevResult

/-- Memory with bytes stored at the start of an allocation. -/
def store (memory : Memory) (allocation : Nat) (bytes : List Byte) : Memory :=
  fun block offset =>
    if block = allocation then bytes.getD offset (memory block offset) else memory block offset

/-- The three buffers of the writer: the encoded front, `encoded_value` and the
encoded end. -/
def allocated : List Pointer := [⟨0, 0⟩, ⟨1, 0⟩, ⟨2, 0⟩]

/-- The array and the buffers before the first record; the length of the second
entry is set for each record before it is used. -/
def openIo (ctx : WriterCtx) (heap : Memory) (script : List WritevResult) : WriterIo :=
  let front := ctx.encoder.prefixEncoder ctx.fields
  let back := ctx.encoder.postfixEncoder ctx.fields
  { iov := [⟨⟨0, 0⟩, front.length⟩, ⟨⟨1, 0⟩, 0⟩, ⟨⟨2, 0⟩, back.length⟩],
    memory := store (store heap 0 front) 2 back, output := [], script := script }

/-- Store an encoded value, refresh its length and call `jp_file_writev`. -/
def emitIo (io : WriterIo) (encoded : List Byte) : Option (WriterIo × Errno) :=
  let memory := store io.memory 1 encoded
  let iov := io.iov.modify 1 fun entry => { entry with len := encoded.length }
  (jpFileWritev memory iov io.script).map fun call =>
    ({ iov := call.iov, memory := memory, output := io.output ++ call.written,
       script := call.script }, call.err)

/-- The pointers the writer frees. -/
def freed (io : WriterIo) : List Pointer := io.iov.map Iovec.base

section Delivery

variable (ctx : WriterCtx)

/-- The bytes of a record. -/
def recordBytes (record : Record) : List Byte :=
  ctx.encoder.prefixEncoder ctx.fields ++ record.encoded ++ ctx.encoder.postfixEncoder ctx.fields

/-- The sizes of the entries a record is written from. -/
def entrySizes (record : Record) : List Nat :=
  [(ctx.encoder.prefixEncoder ctx.fields).length, record.encoded.length,
    (ctx.encoder.postfixEncoder ctx.fields).length]

/-- The array and the buffers are those the writer set up. -/
structure Pristine (io : WriterIo) : Prop where
  entries : ∃ len, io.iov = [⟨⟨0, 0⟩, (ctx.encoder.prefixEncoder ctx.fields).length⟩, ⟨⟨1, 0⟩, len⟩,
    ⟨⟨2, 0⟩, (ctx.encoder.postfixEncoder ctx.fields).length⟩]
  front : Iovec.content io.memory ⟨⟨0, 0⟩, (ctx.encoder.prefixEncoder ctx.fields).length⟩ =
    ctx.encoder.prefixEncoder ctx.fields
  back : Iovec.content io.memory ⟨⟨2, 0⟩, (ctx.encoder.postfixEncoder ctx.fields).length⟩ =
    ctx.encoder.postfixEncoder ctx.fields

/-- Bytes stored are read back. -/
theorem content_store (memory : Memory) (allocation : Nat) (bytes : List Byte) :
    Iovec.content (store memory allocation bytes) ⟨⟨allocation, 0⟩, bytes.length⟩ = bytes := by
  apply List.ext_getElem
  · simp [Iovec.content]
  · intro index inside bound
    simp [Iovec.content, store, bound]

/-- Bytes stored elsewhere are not seen. -/
theorem content_store_other (memory : Memory) (allocation : Nat) (bytes : List Byte)
    (entry : Iovec) (other : entry.base.allocation ≠ allocation) :
    Iovec.content (store memory allocation bytes) entry = Iovec.content memory entry := by
  simp [Iovec.content, store, other]

/-- The writer starts with the array it set up. -/
theorem open_pristine (heap : Memory) (script : List WritevResult) :
    Pristine ctx (openIo ctx heap script) := by
  refine ⟨⟨0, rfl⟩, ?_, ?_⟩
  · rw [openIo, content_store_other _ 2 _ _ (by simp), content_store]
  · rw [openIo, content_store]

/-- What writing one record with the array the writer set up comes to, also where the
call fails after some counts. -/
structure Written (io next : WriterIo) (record : Record) (err : Errno) : Prop where
  output : err = .ok → next.output = io.output ++ recordBytes ctx record
  answers : ∃ used, io.script = used ++ next.script ∧
    (err = .ok → (counts used).sum = (entrySizes ctx record).sum) ∧
    (freed next = allocated ↔ Aligned (counts used) (entrySizes ctx record)) ∧
    (freed next = allocated → Pristine ctx next)

/-- Entries that end up at the start of their allocations were there before. -/
theorem bases_before {before after : List Iovec} (advanced : List.Forall₂ Advanced before after)
    (settled : ∀ entry ∈ after, entry.base.offset = 0) :
    before.map Iovec.base = after.map Iovec.base := by
  induction advanced with
  | nil => rfl
  | @cons first moved rest others step _ ih =>
    have none : moved.base.offset = 0 := settled moved List.mem_cons_self
    have offset := step.offset
    have base : first.base = moved.base := Pointer.ext step.allocation.symm (by omega)
    have following := ih fun entry member => settled entry (List.mem_cons_of_mem _ member)
    rw [List.map_cons, List.map_cons, base, following]

/-- Pointers that end up allocated were so before. -/
theorem allocated_before {before after : List Iovec} (advanced : List.Forall₂ Advanced before after)
    (settled : after.map Iovec.base = allocated) : before.map Iovec.base = allocated := by
  rw [bases_before advanced, settled]
  intro entry member
  have known : entry.base ∈ allocated := settled ▸ List.mem_map_of_mem member
  simp only [allocated, List.mem_cons, List.not_mem_nil, or_false] at known
  rcases known with same | same | same <;> rw [same]

/-- Refreshing a length leaves the pointers. -/
theorem modified_bases (iov : List Iovec) (len : Nat) :
    (iov.modify 1 fun entry => { entry with len := len }).map Iovec.base = iov.map Iovec.base := by
  rcases iov with _ | ⟨first, _ | ⟨second, rest⟩⟩ <;> rfl

/-- One record, written with the array the writer set up. -/
theorem emit_written {io next : WriterIo} {record : Record} {err : Errno}
    (pristine : Pristine ctx io) (emitted : emitIo io record.encoded = some (next, err)) :
    Written ctx io next record err := by
  obtain ⟨⟨len, entries⟩, front, back⟩ := pristine
  obtain ⟨call, returned, same⟩ := Option.map_eq_some_iff.mp emitted
  obtain ⟨delivered, used, after, answers, array, total, advanced, kept⟩ :=
    writev_loop_delivers _ _ _ _ _ _ returned
  obtain ⟨rfl, rfl⟩ := Prod.mk.inj same
  simp only [entries, List.modify_succ_cons, List.modify_zero_cons] at delivered total advanced kept
  refine ⟨fun succeeded => ?_, used, answers, total, ?_, ?_⟩
  · simp only [delivered succeeded, contents, List.flatMap_cons, List.flatMap_nil,
      List.nil_append, content_store, recordBytes, List.append_nil, List.append_assoc]
    rw [content_store_other _ 1 _ _ (by simp), content_store_other _ 1 _ _ (by simp), front, back]
  · simpa [freed, array, allocated, entrySizes] using kept
  · intro settled
    have still := all_advanced_still advanced (by simpa [freed, array, allocated] using settled)
    refine ⟨⟨record.encoded.length, ?_⟩, ?_, ?_⟩
    · simp only [array, List.nil_append, still]
    · simpa [content_store_other] using front
    · simpa [content_store_other] using back

/-- Handing over a record never moves a pointer back to its allocation, whether the
call succeeds or not. -/
theorem emit_settled {io next : WriterIo} {encoded : List Byte} {err : Errno}
    (emitted : emitIo io encoded = some (next, err)) :
    freed next = allocated → freed io = allocated := by
  obtain ⟨call, returned, same⟩ := Option.map_eq_some_iff.mp emitted
  obtain ⟨_, used, after, answers, array, _, advanced, _⟩ :=
    writev_loop_delivers _ _ _ _ _ _ returned
  obtain ⟨rfl, rfl⟩ := Prod.mk.inj same
  intro settled
  rw [freed, ← modified_bases io.iov encoded.length]
  apply allocated_before advanced
  simpa [freed, array] using settled

/-- The answers left after handing over a record are the last of those there were. -/
theorem emit_used {io next : WriterIo} {encoded : List Byte} {err : Errno}
    (emitted : emitIo io encoded = some (next, err)) :
    ∃ used, io.script = used ++ next.script := by
  obtain ⟨call, returned, same⟩ := Option.map_eq_some_iff.mp emitted
  obtain ⟨_, used, _, answers, _⟩ := writev_loop_delivers _ _ _ _ _ _ returned
  obtain ⟨rfl, rfl⟩ := Prod.mk.inj same
  exact ⟨used, answers⟩

/-- Handing over a record succeeds while no answer of `writev` is a failure. -/
theorem emit_succeeds {io next : WriterIo} {encoded : List Byte} {err : Errno}
    (resumable : ∀ answer ∈ io.script, Resumable answer)
    (emitted : emitIo io encoded = some (next, err)) : err = .ok := by
  obtain ⟨call, returned, same⟩ := Option.map_eq_some_iff.mp emitted
  have succeeded := writev_loop_succeeds _ _ _ _ _ _ resumable returned
  exact (Prod.mk.inj same).2 ▸ succeeded

/-- Handing over any records never moves a pointer back to its allocation. -/
theorem emit_records_settled {io final : WriterIo} {records done : List Record} {err : Errno}
    (handing : Handing emitIo io records done final err) :
    freed final = allocated → freed io = allocated := by
  induction handing with
  | nothing => exact id
  | refused io record rest next err written => exact emit_settled written
  | taken io record rest next done final err written _ before =>
    exact fun settled => emit_settled written (before settled)

/-- The answers left after handing over records are the last of those there were. -/
theorem emit_records_used {io final : WriterIo} {records done : List Record} {err : Errno}
    (handing : Handing emitIo io records done final err) :
    ∃ used, io.script = used ++ final.script := by
  induction handing with
  | nothing io => exact ⟨[], rfl⟩
  | refused io record rest next err written => exact emit_used written
  | taken io record rest next done final err written _ others =>
    obtain ⟨used, split⟩ := emit_used written
    obtain ⟨more, left⟩ := others
    exact ⟨used ++ more, by rw [split, left, List.append_assoc]⟩

/-- Handing over any records succeeds while no answer of `writev` is a failure, and
then all of them are handed over. -/
theorem emit_records_succeed {io final : WriterIo} {records done : List Record} {err : Errno}
    (resumable : ∀ answer ∈ io.script, Resumable answer)
    (handing : Handing emitIo io records done final err) : err = .ok ∧ done = records := by
  induction handing with
  | nothing => exact ⟨rfl, rfl⟩
  | refused io record rest next err written failed =>
    exact absurd (emit_succeeds resumable written) failed
  | taken io record rest next done final err written _ others =>
    obtain ⟨used, split⟩ := emit_used written
    obtain ⟨succeeded, rfl⟩ := others fun answer member =>
      resumable answer (split ▸ List.mem_append_right used member)
    exact ⟨succeeded, rfl⟩

/-- Handing over records with the array the writer set up leaves the pointers exactly
when every count used ends at the end of an entry, whether a call fails or not. While
the pointers stand the bytes of the records are delivered.

A record with an unaligned count leaves a moved pointer, and no later record moves it
back. -/
theorem emit_records_pointers {io final : WriterIo} {records done : List Record} {err : Errno}
    (pristine : Pristine ctx io) (handing : Handing emitIo io records done final err) :
    ∃ used, io.script = used ++ final.script ∧
      (freed final = allocated ↔ Aligned (counts used) (done.flatMap (entrySizes ctx))) ∧
      (err = .ok → freed final = allocated →
        final.output = io.output ++ done.flatMap (recordBytes ctx)) := by
  induction handing with
  | nothing io =>
    obtain ⟨len, entries⟩ := pristine.entries
    exact ⟨[], rfl, by simp [counts, Aligned, freed, entries, allocated], by simp⟩
  | refused io record rest next err written failed =>
    obtain ⟨_, used, answers, _, stands, _⟩ := emit_written ctx pristine written
    rw [List.flatMap_singleton]
    exact ⟨used, answers, stands, fun fine => absurd fine failed⟩
  | taken io record rest next done final err written further others =>
    obtain ⟨output, used, answers, total, stands, intact⟩ := emit_written ctx pristine written
    have counted (more : List WritevResult) : counts (used ++ more) = counts used ++ counts more :=
      List.filterMap_append
    by_cases settled : freed next = allocated
    · obtain ⟨more, split, rest, delivered⟩ := others (intact settled)
      refine ⟨used ++ more, by rw [answers, split, List.append_assoc], ?_, fun fine kept => ?_⟩
      · rw [List.flatMap_cons, counted, aligned_append_iff _ _ _ _ (total rfl),
          and_iff_right (stands.mp settled), rest]
      · rw [delivered fine kept, output rfl, List.flatMap_cons, List.append_assoc]
    · have apart : freed final ≠ allocated := fun kept =>
        settled (emit_records_settled further kept)
      obtain ⟨more, split⟩ := emit_records_used further
      refine ⟨used ++ more, by rw [answers, split, List.append_assoc], ?_, fun _ kept =>
        absurd kept apart⟩
      rw [List.flatMap_cons, counted, aligned_append_iff _ _ _ _ (total rfl), ← stands]
      exact iff_of_false apart fun both => settled both.1

/-- Handing over records with the array the writer set up delivers their bytes
and leaves the pointers, exactly when every count ends at the end of an entry. -/
theorem emit_records_delivers {io final : WriterIo} {records done : List Record} {err : Errno}
    (pristine : Pristine ctx io) (resumable : ∀ answer ∈ io.script, Resumable answer)
    (emitted : emitRecords emitIo io records = some (done, final, err))
    (exhausted : final.script = []) :
    (final.output = io.output ++ records.flatMap (recordBytes ctx) ∧ freed final = allocated) ↔
      Aligned (counts io.script) (records.flatMap (entrySizes ctx)) := by
  obtain ⟨succeeded, rfl⟩ := emit_records_succeed resumable (emit_handing emitted)
  obtain ⟨used, split, stands, delivered⟩ :=
    emit_records_pointers ctx pristine (emit_handing emitted)
  rw [exhausted, List.append_nil] at split
  rw [split, ← stands]
  exact ⟨And.right, fun settled => ⟨delivered succeeded settled, settled⟩⟩

/-- In a run whose calls of `writev` answered `script`, none of them with a
failure, each record reaches the descriptor as its front, value and end, and the
pointers freed are those allocated, exactly when every count ended at the end of
an entry. -/
theorem delivery_exact_iff (heap : Memory) (script : List WritevResult) (blocks : List (List Byte))
    (fit : BlocksFit ctx.chunkSize blocks) (resumable : ∀ answer ∈ script, Resumable answer)
    (final : Writer WriterIo) (err : Errno)
    (returned : jpWriterProduce ctx emitIo (openIo ctx heap script) blocks = some (final, err))
    (exhausted : final.sink.script = []) :
    err = .ok ∧ final.records = recordsOf ctx blocks ∧
      ((final.sink.output = final.records.flatMap (recordBytes ctx) ∧
          freed final.sink = allocated) ↔
        Aligned (counts script) ((recordsOf ctx blocks).flatMap (entrySizes ctx))) := by
  have refined := writer_refines_cutting ctx emitIo (openIo ctx heap script) blocks fit
  rw [returned, Option.map_some] at refined
  obtain ⟨⟨done, io, status⟩, emitted, same⟩ := Option.map_eq_some_iff.mp refined.symm
  obtain ⟨succeeded, rfl⟩ := emit_records_succeed resumable (emit_handing emitted)
  obtain ⟨records, rfl, rfl⟩ : recordsOf ctx blocks = final.records ∧ io = final.sink ∧
      Errno.ok = err := by simpa [outcome, succeeded, jpQueueIsGracefulErr] using same
  have delivers := emit_records_delivers ctx (open_pristine ctx heap script) resumable emitted
    exhausted
  exact ⟨rfl, records.symm, by simpa [← records, openIo] using delivers⟩

/-- Counts that end at the ends of entries, after an interrupted call. -/
theorem boundary_counts_deliver :
    ∃ final, jpWriterProduce (bareWriter 4) emitIo
        (openIo (bareWriter 4) (fun _ _ => 0) [.eintr, .wrote 8, .wrote 3]) [[0x61, newline]] =
          some (final, .ok) ∧
      final.sink.output = final.records.flatMap (recordBytes (bareWriter 4)) ∧
      freed final.sink = allocated := by
  obtain ⟨final, err, returned, exhausted⟩ : ∃ final err, jpWriterProduce (bareWriter 4) emitIo
      (openIo (bareWriter 4) (fun _ _ => 0) [.eintr, .wrote 8, .wrote 3]) [[0x61, newline]] =
        some (final, err) ∧ final.sink.script = [] := ⟨_, _, rfl, rfl⟩
  obtain ⟨rfl, _, delivers⟩ := delivery_exact_iff (bareWriter 4) (fun _ _ => 0)
    [.eintr, .wrote 8, .wrote 3] [[0x61, newline]] (by decide) (by decide) final err returned
    exhausted
  refine ⟨final, returned, delivers.mpr ?_⟩
  intro taken
  match taken with
  | 0 => exact ⟨0, rfl⟩
  | 1 => exact ⟨2, rfl⟩
  | taken + 2 => exact ⟨3, by simp [counts]; rfl⟩

/-- One byte of the first record written alone: the second record starts without
its brace, and a moved pointer is freed. -/
theorem short_count_spoils_next :
    BlocksFit 4 [[0x61, newline, 0x62, newline]] ∧
      (∀ answer ∈ [WritevResult.wrote 1, .wrote 10, .wrote 10], Resumable answer) ∧
      ∃ final, jpWriterProduce (bareWriter 4) emitIo
          (openIo (bareWriter 4) (fun _ _ => 0) [.wrote 1, .wrote 10, .wrote 10])
          [[0x61, newline, 0x62, newline]] = some (final, .ok) ∧
        final.sink.script = [] ∧
        final.sink.output ≠ final.records.flatMap (recordBytes (bareWriter 4)) ∧
        freed final.sink ≠ allocated :=
  ⟨by decide, by decide, _, rfl, rfl, by decide, by decide⟩

end Delivery

end JPipe
