import JPipe.Inference

/-!
# One record of the output

A record is what the writer hands to one vectored write: the prefix built once
from the fields, the escaped line, and the postfix. `NdjsonRecord` says what a
record is for: one JSON object on a line of its own whose members are the fields
in order and the line itself under the message key.

The prefix ends after the colon of the message key and the postfix starts with
the quotation mark that closes the message. Nothing opens it, so a reader of
quotation marks and backslashes ends every record inside a string.
-/

namespace JPipe

/-- What `jp_writer_produce` passes to one `jp_file_writev` for a line, the value
encoder being given room for six bytes a byte. -/
def emittedRecord (fieldSet : FieldSet) (line : List Byte) : List Byte :=
  jpJsonPrefixEncoder fieldSet ++
    jpJsonValueEncoder line (line.length * jsonEscapeMul) ++ jpJsonPostfixEncoder fieldSet

/-- A value text that stands for a field's value: a string of exactly its bytes,
or the value itself as an unquoted number, Boolean or null. -/
def ValueOf (val text : List Byte) : Prop :=
  (∃ body, text = JsonText.quoted body ∧ JsonText.unescape body = some val) ∨
    text = val ∧ (JsonText.Number val ∨ val = [0x74, 0x72, 0x75, 0x65] ∨
      val = [0x66, 0x61, 0x6c, 0x73, 0x65] ∨ val = [0x6e, 0x75, 0x6c, 0x6c])

/-- A member, as raw name body and raw value text, that stands for a field. -/
def MemberOf (field : Field) (member : List Byte × List Byte) : Prop :=
  JsonText.unescape member.1 = some field.key ∧ ValueOf field.val member.2

/-- The member that carries the line under the message key. -/
def MessageOf (line : List Byte) (member : List Byte × List Byte) : Prop :=
  JsonText.unescape member.1 = some [0x6d, 0x73, 0x67] ∧
    ∃ body, member.2 = JsonText.quoted body ∧ JsonText.unescape body = some line

/-- One NDJSON record for these fields and this line: a JSON object and the
newline that ends it, the only one, with the fields in order and then the line. -/
def NdjsonRecord (fieldSet : FieldSet) (line text : List Byte) : Prop :=
  ∃ object members message, text = object ++ [newline] ∧ newline ∉ object ∧
    JsonText.ObjectText (members ++ [message]) object ∧
    List.Forall₂ MemberOf fieldSet.fields members ∧ MessageOf line message

/-- A value written without quotation marks has no byte to escape. -/
theorem bare_value_plain (val : List Byte) (bare : isJsonStringLiteral val = false) :
    ∀ ch ∈ val, escLen ch = 1 := by
  have literal (text : List Byte) (each : text.all (fun ch => escLen ch = 1) = true) :
      ∀ ch ∈ text, escLen ch = 1 := by simpa using each
  rcases (string_literal_eq val).mp bare with number | rfl | rfl | rfl
  · intro ch member
    rw [esc_len_eq]
    exact forall_byte (fun ch => JsonText.NumberByte ch → escapeSize ch = 1) (by decide +kernel) ch
      (JsonText.number_bytes number ch member)
  · exact literal _ (by decide)
  · exact literal _ (by decide)
  · exact literal _ (by decide)

/-- Escaping leaves bytes that need none as they are. -/
theorem escaped_plain (text : List Byte) (plain : ∀ ch ∈ text, escLen ch = 1) :
    text.flatMap escaped = text := by
  induction text with
  | nil => rfl
  | cons ch rest ih =>
    have one : escLen ch = 1 := plain ch List.mem_cons_self
    have others := ih (fun other member => plain other (List.mem_cons_of_mem ch member))
    rw [List.flatMap_cons, others]
    simp [escaped, one]

/-- The characters of an admitted key are written as they are. -/
theorem admitted_key_plain (field : Field) (admitted : AdmittedField field) :
    ∀ ch ∈ field.key, escLen ch = 1 := by
  intro ch member
  have valid : isFieldKeyChar ch = true := List.all_eq_true.mp admitted.keyChars ch member
  rw [esc_len_eq]
  exact forall_byte (fun ch => isFieldKeyChar ch = true → escapeSize ch = 1) (by decide +kernel) ch
    valid

/-- The raw member the encoder writes for a field. -/
def rawMember (field : Field) : List Byte × List Byte :=
  (field.key,
    if isJsonStringLiteral field.val then JsonText.quoted (field.val.flatMap escaped)
    else field.val)

/-- A field is encoded as its raw member and a comma. -/
theorem encode_field_eq (field : Field) :
    encodeField field =
      JsonText.quoted field.key ++ 0x3a :: ((rawMember field).2 ++ [0x2c]) := by
  have encoded : jpJsonValueEncoder field.val (field.val.length * 6) = field.val.flatMap escaped :=
    value_encoder_whole (Nat.le_refl field.val.length)
  cases marked : isJsonStringLiteral field.val with
  | true => simp [encodeField, rawMember, marked, encoded, JsonText.quoted, JsonText.quotationMark]
  | false =>
    simp [encodeField, rawMember, marked, encoded, escaped_plain _ (bare_value_plain _ marked),
      JsonText.quoted, JsonText.quotationMark]

/-- The raw member of an admitted field stands for the field. -/
theorem raw_member_of (field : Field) (admitted : AdmittedField field) :
    MemberOf field (rawMember field) := by
  have key := unescape_escaped field.key
  rw [escaped_plain field.key (admitted_key_plain field admitted)] at key
  refine ⟨key, ?_⟩
  cases marked : isJsonStringLiteral field.val with
  | true => exact Or.inl ⟨field.val.flatMap escaped, by simp [rawMember, marked], unescape_escaped _⟩
  | false =>
    exact Or.inr ⟨by simp [rawMember, marked], (string_literal_eq field.val).mp marked⟩

/-- The value text of a member that stands for a field is balanced. -/
theorem value_of_balanced {val text : List Byte} (stands : ValueOf val text) :
    JsonText.Balanced text := by
  rcases stands with ⟨body, rfl, read⟩ | ⟨rfl, number | rfl | rfl | rfl⟩
  · exact JsonText.balanced_quoted (by rw [read]; rfl)
  · exact JsonText.balanced_plain (JsonText.number_plain number)
  · decide
  · decide
  · decide

/-- A field of the prefix takes a reader from outside a string back outside: the
key and a quoted value are strings, and a bare value has no marks. -/
theorem encode_field_balanced (field : Field) (admitted : AdmittedField field) :
    JsonText.Balanced (encodeField field) := by
  obtain ⟨named, stands⟩ := raw_member_of field admitted
  have key : JsonText.Balanced (JsonText.quoted field.key) :=
    JsonText.balanced_quoted (congrArg Option.isSome named)
  have value : JsonText.Balanced ((rawMember field).2 ++ [0x2c]) :=
    JsonText.balanced_append (value_of_balanced stands) (by decide)
  rw [encode_field_eq]
  exact JsonText.balanced_append key (JsonText.balanced_cons (by decide) value)

/-- The whole prefix leaves a reader outside a string, before the message. -/
theorem prefix_balanced (fieldSet : FieldSet)
    (admitted : ∀ field ∈ fieldSet.fields, AdmittedField field) :
    JsonText.Balanced (jpJsonPrefixEncoder fieldSet) := by
  have fields (list : List Field) (each : ∀ field ∈ list, AdmittedField field) :
      JsonText.Balanced (list.flatMap encodeField) := by
    induction list with
    | nil => rfl
    | cons field rest ih =>
      rw [List.flatMap_cons]
      exact JsonText.balanced_append (encode_field_balanced field (each field List.mem_cons_self))
        (ih (fun other member => each other (List.mem_cons_of_mem field member)))
  have opening : JsonText.Balanced [0x7b] := by decide
  have message : JsonText.Balanced msgKey := by decide
  exact JsonText.balanced_append (JsonText.balanced_append opening (fields _ admitted)) message

/-- Read from outside a string, an escaped line never opens one: a byte written
as it is is no quotation mark, and every other starts with a backslash, which
has no reading there. -/
theorem escaped_stays_outside (line : List Byte) :
    JsonText.scan .outside (line.flatMap escaped) = none ∨
      JsonText.scan .outside (line.flatMap escaped) = some .outside := by
  induction line with
  | nil => exact Or.inr rfl
  | cons ch rest ih =>
    by_cases single : escLen ch = 1
    · obtain ⟨notEscape, admitted⟩ := plain_byte ch single
      have notQuote : ch ≠ JsonText.quotationMark := fun same => admitted (Or.inl same)
      simpa [List.flatMap_cons, escaped, single, JsonText.scan, JsonText.advance, notEscape,
        notQuote] using ih
    · refine Or.inl ?_
      rw [List.flatMap_cons, JsonText.scan_append]
      by_cases double : escLen ch = 2 <;>
        simp [escaped, single, double, JsonText.scan, JsonText.advance, JsonText.escape,
          JsonText.quotationMark]

/-- No record is a JSON object before its newline: the quotation mark of the
postfix is the first the reader meets outside a string, and nothing closes it. -/
theorem record_unbalanced (fieldSet : FieldSet)
    (admitted : ∀ field ∈ fieldSet.fields, AdmittedField field) (line object : List Byte)
    (emitted : emittedRecord fieldSet line = object ++ [newline]) : ¬ JsonText.Balanced object := by
  intro balanced
  have ended : JsonText.scan .outside (emittedRecord fieldSet line) = some .outside := by
    rw [emitted]
    exact JsonText.balanced_append balanced (by decide)
  have encoded : jpJsonValueEncoder line (line.length * jsonEscapeMul) = line.flatMap escaped :=
    value_encoder_whole (Nat.le_refl line.length)
  rw [emittedRecord, encoded, List.append_assoc, JsonText.scan_append,
    prefix_balanced fieldSet admitted, Option.bind_some, JsonText.scan_append] at ended
  rcases escaped_stays_outside line with stuck | outside
  · simp [stuck] at ended
  · have opened : JsonText.scan .outside [0x22, 0x7d, 0x0a] = some .inside := by decide
    rw [outside, Option.bind_some, jpJsonPostfixEncoder, opened] at ended
    cases ended

/-- Whatever fields were added and whatever the line, the record the writer emits
is no NDJSON record: it is not even a JSON object before the newline. -/
theorem emitted_never_ndjson (cap : Nat) (arguments : List (List Byte)) (line : List Byte) :
    ¬ NdjsonRecord (addFields cap arguments) line
      (emittedRecord (addFields cap arguments) line) := by
  rintro ⟨object, members, message, emitted, _, derived, _, _⟩
  exact record_unbalanced (addFields cap arguments) (add_fields_admitted cap arguments) line object
    emitted (JsonText.object_balanced derived)

/-- With no fields and the line `hi`, the record is `{"msg":hi"}` and a newline. -/
theorem bare_message_refuted :
    emittedRecord (addFields 32 []) [0x68, 0x69] =
        [0x7b, 0x22, 0x6d, 0x73, 0x67, 0x22, 0x3a, 0x68, 0x69, 0x22, 0x7d, 0x0a] ∧
      newline ∉ ([0x68, 0x69] : List Byte) ∧
      ¬ NdjsonRecord (addFields 32 []) [0x68, 0x69]
        (emittedRecord (addFields 32 []) [0x68, 0x69]) := by
  refine ⟨by decide, by decide, ?_⟩
  rintro ⟨object, members, message, emitted, _, derived, _, _⟩
  exact record_unbalanced (addFields 32 []) (add_fields_admitted 32 []) [0x68, 0x69] object emitted
    (JsonText.object_balanced derived)

end JPipe
