import JPipe.Json
import JPipe.Region
import JPipe.Settings

/-!
# The encoders on their memory

The encoders of `JPipe.Json` are texts. Here they write them, with the indices of
the source: `dst_ptr` counts from the destination of a value, and `json_ptr` from
the start of the prefix. Every store goes through a region, so an encoder without
a result has written outside of the memory it was given.

The prefix is sized before it is written: 64 bytes and, for each field, its key,
six bytes for each byte of its value, and six bytes for the punctuation. A field
is never longer than its share, whatever escapes and quotation marks it needs.
-/

namespace JPipe

section Stores

variable {size : Nat}

/-- The loop of `jp_json_value_encoder`, with `dst` at a position of a region:
the region afterwards and `dst_ptr`. -/
def valueEncoderStores (dst dstLen : Nat) :
    List Byte → Nat → Region Byte size → Option (Region Byte size × Nat)
  | [], dstPtr, region => some (region, dstPtr)
  | ch :: rest, dstPtr, region =>
    if dstPtr + escLen ch > dstLen then some (region, dstPtr)
    else
      (region.write (dst + dstPtr) (escaped ch)).bind fun written =>
        valueEncoderStores dst dstLen rest (dstPtr + (escaped ch).length) written

/-- `jp_json_value_encoder`, with its destination in a region. -/
def jpJsonValueEncoderInto (src : List Byte) (region : Region Byte size) (dst dstLen : Nat) :
    Option (Region Byte size × Nat) :=
  valueEncoderStores dst dstLen src 0 region

/-- The quotation mark around a value that needs one. -/
def putMark (isJsonStr : Bool) (metadata : Region.Cursor Byte size) :
    Option (Region.Cursor Byte size) :=
  if isJsonStr then metadata.put [0x22] else some metadata

/-- The call of the value encoder for a field, and `json_ptr += esc_size`. -/
def putValue (val : List Byte) (metadata : Region.Cursor Byte size) :
    Option (Region.Cursor Byte size) :=
  (jpJsonValueEncoderInto val metadata.region metadata.position (val.length * 6)).map
    fun (region, escSize) => { region, position := metadata.position + escSize }

/-- One turn of the second loop of `jp_json_prefix_encoder`. -/
def encodeFieldInto (field : Field) (metadata : Region.Cursor Byte size) :
    Option (Region.Cursor Byte size) := do
  let isJsonStr := isJsonStringLiteral field.val
  let metadata ← metadata.put [0x22]
  let metadata ← metadata.put field.key
  let metadata ← metadata.put [0x22]
  let metadata ← metadata.put [0x3a]
  let metadata ← putMark isJsonStr metadata
  let metadata ← putValue field.val metadata
  let metadata ← putMark isJsonStr metadata
  metadata.put [0x2c]

/-- The bytes `jp_json_prefix_encoder` writes before the NUL. -/
def putPrefix (fieldSet : FieldSet) (metadata : Region.Cursor Byte size) :
    Option (Region.Cursor Byte size) := do
  let metadata ← metadata.put [0x7b]
  let metadata ← fieldSet.fields.foldlM
    (fun metadata field => encodeFieldInto field metadata) metadata
  metadata.put msgKey

/-- `jp_json_prefix_encoder` on the memory it allocated: the memory and `dst_len`. -/
def jpJsonPrefixEncoderInto (fieldSet : FieldSet) (allocated : Region Byte size) :
    Option (Region Byte size × Nat) := do
  let metadata ← putPrefix fieldSet { region := allocated, position := 0 }
  let terminated ← metadata.region.write metadata.position [0]
  some (terminated, metadata.position)

/-- The first loop of `jp_json_prefix_encoder`: `prefix_size`, a `size_t`. -/
def prefixSizeLoop (fieldSet : FieldSet) : Nat :=
  fieldSet.fields.foldl (fun prefixSize field =>
    (prefixSize + field.key.length + field.val.length * jsonEscapeMul + 6) % 2 ^ 64) 64

/-- The loop only ever adds to what it has written. -/
theorem value_encoder_loop_grows (dstLen : Nat) (src dst : List Byte) :
    dst <+: valueEncoderLoop dstLen src dst := by
  induction src generalizing dst with
  | nil => exact List.prefix_rfl
  | cons ch rest ih =>
    rw [valueEncoderLoop]
    split_ifs with full
    · exact List.prefix_rfl
    · exact (List.prefix_append dst (escaped ch)).trans (ih (dst ++ escaped ch))

/-- Behind a held text, the stores are those of the loop on the text written so far. -/
theorem value_encoder_stores_eq (held : List Byte) (dstLen : Nat) (src dst : List Byte)
    (region : Region Byte size) (holds : region.Holds (held ++ dst))
    (room : held.length + (valueEncoderLoop dstLen src dst).length ≤ size) :
    ∃ next, valueEncoderStores held.length dstLen src dst.length region =
        some (next, (valueEncoderLoop dstLen src dst).length) ∧
      next.Holds (held ++ valueEncoderLoop dstLen src dst) := by
  induction src generalizing dst region with
  | nil => exact ⟨region, rfl, holds⟩
  | cons ch rest ih =>
    rw [valueEncoderLoop] at room ⊢
    rw [valueEncoderStores]
    by_cases full : dst.length + escLen ch > dstLen
    · simp only [full, ↓reduceIte] at room ⊢
      exact ⟨region, rfl, holds⟩
    · simp only [full, ↓reduceIte] at room ⊢
      have grown := (value_encoder_loop_grows dstLen rest (dst ++ escaped ch)).length_le
      have fits : (held ++ dst).length + (escaped ch).length ≤ size := by
        rw [List.length_append] at grown ⊢
        omega
      obtain ⟨written, stored, extended⟩ := Region.write_holds holds (escaped ch) fits
      rw [List.append_assoc] at extended
      obtain ⟨last, following, ended⟩ := ih (dst ++ escaped ch) written extended room
      rw [List.length_append] at stored following
      refine ⟨last, ?_, ended⟩
      rw [stored, Option.bind_some, following]

/-- The value encoder writes its text behind what is there. -/
theorem value_encoder_into (src : List Byte) (dstLen : Nat) (region : Region Byte size)
    (held : List Byte) (holds : region.Holds held)
    (room : held.length + (jpJsonValueEncoder src dstLen).length ≤ size) :
    ∃ next, jpJsonValueEncoderInto src region held.length dstLen =
        some (next, (jpJsonValueEncoder src dstLen).length) ∧
      next.Holds (held ++ jpJsonValueEncoder src dstLen) := by
  apply value_encoder_stores_eq held dstLen src [] region
  · rwa [List.append_nil]
  · exact room

theorem fills_mark (isJsonStr : Bool) :
    Region.Fills (fun metadata : Region.Cursor Byte size => putMark isJsonStr metadata)
      (if isJsonStr then [0x22] else []) := by
  cases isJsonStr with
  | true => exact Region.fills_put [0x22]
  | false => exact Region.fills_nothing

theorem fills_value (val : List Byte) :
    Region.Fills (fun metadata : Region.Cursor Byte size => putValue val metadata)
      (jpJsonValueEncoder val (val.length * 6)) := by
  intro metadata held behind room
  obtain ⟨region, encoded, holds⟩ :=
    value_encoder_into val (val.length * 6) metadata.region held behind.holds room
  refine ⟨{ region, position := held.length + (jpJsonValueEncoder val (val.length * 6)).length },
    ?_, holds, ?_⟩
  · simp only [putValue, behind.position, encoded, Option.map_some]
  · rw [List.length_append]

/-- A turn of the second loop writes the text of its field. -/
theorem fills_field (field : Field) :
    Region.Fills (fun metadata : Region.Cursor Byte size => encodeFieldInto field metadata)
      (encodeField field) := by
  have put (items : List Byte) :
      Region.Fills (fun metadata : Region.Cursor Byte size => metadata.put items) items :=
    Region.fills_put items
  have marked : Region.Fills
      (fun metadata : Region.Cursor Byte size => putMark (isJsonStringLiteral field.val) metadata)
      (if isJsonStringLiteral field.val then [0x22] else []) :=
    fills_mark (isJsonStringLiteral field.val)
  have value := Region.fills_bind marked
    (Region.fills_bind (fills_value field.val) (Region.fills_bind marked (put [0x2c])))
  have named := Region.fills_bind (put [0x22]) (Region.fills_bind (put field.key)
    (Region.fills_bind (put [0x22]) (Region.fills_bind (put [0x3a]) value)))
  have text : encodeField field = [0x22] ++ (field.key ++ ([0x22] ++ ([0x3a] ++
      ((if isJsonStringLiteral field.val then [0x22] else []) ++
        (jpJsonValueEncoder field.val (field.val.length * 6) ++
          ((if isJsonStringLiteral field.val then [0x22] else []) ++ [0x2c])))))) := by
    simp only [encodeField, List.append_assoc, List.cons_append, List.nil_append]
  rw [text]
  exact named

/-- The stores before the NUL write the text of the prefix. -/
theorem fills_prefix (fieldSet : FieldSet) :
    Region.Fills (fun metadata : Region.Cursor Byte size => putPrefix fieldSet metadata)
      (jpJsonPrefixEncoder fieldSet) := by
  have opening : Region.Fills (fun metadata : Region.Cursor Byte size => metadata.put [0x7b])
      [0x7b] := Region.fills_put [0x7b]
  rw [jpJsonPrefixEncoder, List.append_assoc]
  refine Region.fills_bind opening (Region.fills_bind ?_ (Region.fills_put msgKey))
  exact Region.fills_loop fieldSet.fields (fun field _ => fills_field field)

end Stores

/-- A field takes at most its share of the allocation. -/
theorem encode_field_bound (field : Field) :
    (encodeField field).length ≤ field.key.length + field.val.length * jsonEscapeMul + 6 := by
  have roomy : jpJsonValueEncoder field.val (field.val.length * 6) = field.val.flatMap escaped :=
    value_encoder_whole (Nat.le_refl field.val.length)
  have bound := escaped_text_bound field.val
  rw [← roomy] at bound
  have marks : (if isJsonStringLiteral field.val then [0x22] else ([] : List Byte)).length ≤ 1 := by
    split_ifs <;> decide
  simp only [encodeField, List.length_append, List.length_cons, List.length_nil]
  omega

/-- The text of the prefix with its NUL is shorter than the size allocated. -/
theorem prefix_text_bound (fieldSet : FieldSet) :
    (jpJsonPrefixEncoder fieldSet).length < prefixSize fieldSet := by
  have fields (list : List Field) : (list.flatMap encodeField).length ≤
      (list.map fun field => field.key.length + field.val.length * jsonEscapeMul + 6).sum := by
    induction list with
    | nil => exact Nat.le_refl 0
    | cons field rest ih =>
      have one := encode_field_bound field
      rw [List.flatMap_cons, List.length_append, List.map_cons, List.sum_cons]
      omega
  have all := fields fieldSet.fields
  simp only [jpJsonPrefixEncoder, prefixSize, msgKey, List.length_append, List.length_cons,
    List.length_nil]
  omega

/-- The size computed is the sum of the shares, up to wrapping round. -/
theorem prefix_size_loop (fieldSet : FieldSet) :
    prefixSizeLoop fieldSet = prefixSize fieldSet % 2 ^ 64 := by
  have added (list : List Field) (start : Nat) (small : start < 2 ^ 64) :
      list.foldl (fun prefixSize field =>
        (prefixSize + field.key.length + field.val.length * jsonEscapeMul + 6) % 2 ^ 64) start =
      (start + (list.map fun field =>
        field.key.length + field.val.length * jsonEscapeMul + 6).sum) % 2 ^ 64 := by
    induction list generalizing start with
    | nil => exact (Nat.mod_eq_of_lt small).symm
    | cons field rest ih =>
      rw [List.foldl_cons, ih _ (Nat.mod_lt _ (by decide)), List.map_cons, List.sum_cons,
        Nat.mod_add_mod]
      congr 1
      omega
  exact added fieldSet.fields 64 (by decide)

/-- The sets a command line can build are sized far below the point of wrapping. -/
theorem prefix_size_of_additions (arguments : List (List Byte)) :
    prefixSizeLoop (addFields confFieldsMax arguments) =
      prefixSize (addFields confFieldsMax arguments) := by
  have sound := add_fields_sound confFieldsMax arguments
  have shares (list : List Field) (admitted : ∀ field ∈ list, AdmittedField field) :
      (list.map fun field => field.key.length + field.val.length * jsonEscapeMul + 6).sum ≤
        list.length * 3110 := by
    induction list with
    | nil => exact Nat.zero_le _
    | cons field rest ih =>
      have one := admitted field List.mem_cons_self
      have key := one.keyBound
      have val := one.valBound
      have others := ih (fun other member => admitted other (List.mem_cons_of_mem field member))
      simp only [confFieldMaxKey, confFieldMaxVal] at key val
      rw [List.map_cons, List.sum_cons, List.length_cons, jsonEscapeMul]
      rw [jsonEscapeMul] at others
      omega
  have bound := shares _ sound.admitted
  have number : (addFields confFieldsMax arguments).fields.length ≤ 32 := sound.bound
  rw [prefix_size_loop, Nat.mod_eq_of_lt]
  rw [prefixSize]
  omega

/-- The prefix encoder stays within its allocation.

For every set, whatever its fields, and whatever the allocated memory holds: no
store is outside of it, it ends up with the text of the prefix and a NUL behind
it, and `dst_len` counts the bytes before the NUL. No call of the value encoder
stops early. The allocation is the size that the first loop computes, unless that
wraps round. -/
theorem prefix_within_allocation (fieldSet : FieldSet)
    (allocated : Region Byte (prefixSize fieldSet)) :
    (∃ metadata dstLen, jpJsonPrefixEncoderInto fieldSet allocated = some (metadata, dstLen) ∧
      metadata.Holds (jpJsonPrefixEncoder fieldSet ++ [0]) ∧
      dstLen = (jpJsonPrefixEncoder fieldSet).length ∧ dstLen < prefixSize fieldSet) ∧
    (∀ field ∈ fieldSet.fields,
      jpJsonValueEncoder field.val (field.val.length * 6) = field.val.flatMap escaped) ∧
    (prefixSize fieldSet < 2 ^ 64 → prefixSizeLoop fieldSet = prefixSize fieldSet) := by
  have bound := prefix_text_bound fieldSet
  refine ⟨?_, ?_, ?_⟩
  · obtain ⟨metadata, filled, behind⟩ := fills_prefix fieldSet
      { region := allocated, position := 0 } [] ⟨Region.holds_nil allocated, rfl⟩ (by
        rw [List.length_nil, Nat.zero_add]
        exact Nat.le_of_lt bound)
    rw [List.nil_append] at behind
    obtain ⟨terminated, written, holds⟩ := Region.write_holds behind.holds [0] bound
    refine ⟨terminated, metadata.position, ?_, holds, behind.position, ?_⟩
    · rw [← behind.position] at written
      simp only [jpJsonPrefixEncoderInto, filled, written, Option.bind_eq_bind, Option.bind_some]
    · exact behind.position ▸ bound
  · intro field _
    exact value_encoder_whole (Nat.le_refl field.val.length)
  · intro small
    rw [prefix_size_loop, Nat.mod_eq_of_lt small]

/-- Even the shortest prefix needs a byte for its NUL. -/
example : jpJsonPrefixEncoderInto (jpFieldSetCreate 0) (Region.of (List.replicate 7 0)) = none := by
  decide

end JPipe
