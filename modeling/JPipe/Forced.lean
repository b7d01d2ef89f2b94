import JPipe.FieldSets
import JPipe.Members

/-!
# Forced strings

A value between quotation marks is documented to force a string: `forced="123"`
is to be written as `"forced": "123"`. The value is kept with its two marks when
the argument is split. The marks make it a string whatever is between them, and
they are escaped as any other byte of it, so that a reader of the prefix gets
them back.
-/

namespace JPipe

/-- A key that is admitted with any value within its bounds. -/
structure AdmittedKey (key : List Byte) : Prop where
  nonempty : 0 < key.length
  bound : key.length ≤ confFieldMaxKey
  chars : isValidFieldKey key = true

/-- The argument `key="s"`. -/
def forcedArgument (key s : List Byte) : List Byte := fieldArgument key (JsonText.quoted s)

/-- The prefix of a set, read up to its message key, has a member under this key
whose value is a string of these bytes. -/
def EmitsString (fieldSet : FieldSet) (key text : List Byte) : Prop :=
  ∃ head members, jpJsonPrefixEncoder fieldSet = head ++ msgKey ∧
    JsonText.OpenObject members head ∧
    ∃ member ∈ members, JsonText.unescape member.1 = some key ∧
      ∃ body, member.2 = JsonText.quoted body ∧ JsonText.unescape body = some text

/-- A string in the prefix is the value of the field with its key. -/
theorem emitted_string_field {fieldSet : FieldSet}
    (admitted : ∀ field ∈ fieldSet.fields, AdmittedField field) {key text : List Byte}
    (emits : EmitsString fieldSet key text) :
    ∃ field ∈ fieldSet.fields, field.key = key ∧ field.val = text := by
  obtain ⟨head, members, encoded, reads, member, present, named, string⟩ := emits
  have heads : head = prefixMembers fieldSet := by
    rw [prefix_encoder_eq] at encoded
    exact (List.append_cancel_right encoded).symm
  have opens := prefix_members_open fieldSet admitted
  have members := JsonText.open_object_unique (heads ▸ reads) opens
  rw [members] at present
  obtain ⟨field, inSet, isRaw⟩ := List.mem_map.mp present
  have stands := raw_member_of field (admitted field inSet)
  rw [isRaw] at stands
  have keys : field.key = key := Option.some.inj (stands.1.symm.trans named)
  have values : field.val = text := value_of_unique stands.2 (Or.inl string)
  exact ⟨field, inSet, keys, values⟩

/-- A field whose value counts as a string is emitted as one. -/
theorem string_field_emitted {fieldSet : FieldSet}
    (admitted : ∀ field ∈ fieldSet.fields, AdmittedField field) {field : Field}
    (inSet : field ∈ fieldSet.fields) (marked : isJsonStringLiteral field.val = true) :
    EmitsString fieldSet field.key field.val := by
  have opens := prefix_members_open fieldSet admitted
  have stands := raw_member_of field (admitted field inSet)
  have text : (rawMember field).2 = JsonText.quoted (field.val.flatMap escaped) := by
    rw [rawMember, if_pos marked]
  refine ⟨_, _, prefix_encoder_eq fieldSet, opens, rawMember field, ?_, stands.1, ?_⟩
  · exact List.mem_map_of_mem inSet
  · exact ⟨_, text, unescape_escaped field.val⟩

/-- A value between quotation marks counts as a string, whatever is between them. -/
theorem quoted_string_literal (s : List Byte) : isJsonStringLiteral (JsonText.quoted s) = true := by
  simp [JsonText.quoted, JsonText.quotationMark, isJsonStringLiteral, isDigit]

theorem quoted_length (s : List Byte) : (JsonText.quoted s).length = s.length + 2 := by
  simp [JsonText.quoted]

/-- A key with a value between quotation marks is an admitted field. -/
theorem forced_admitted {key s : List Byte} (admitted : AdmittedKey key) (bound : s.length ≤ 510) :
    AdmittedField ⟨key, JsonText.quoted s⟩ := by
  have length := quoted_length s
  constructor
  · exact admitted.nonempty
  · exact admitted.bound
  · exact admitted.chars
  · simp only [length]
    omega
  · simp only [length, confFieldMaxVal]
    omega

/-- A field is in the set it was stored in. -/
theorem stored_present {field : Field} {fields after : List Field}
    (stored : Stored field fields after) : field ∈ after := by
  cases stored with
  | replaced front old back same => simp
  | appended fields new => simp

/-- On any set with room, an argument with a value between quotation marks is
accepted, and its key is emitted with a string of the value and its two marks,
never with one of the bytes between them. -/
theorem forced_string_quoted (cap : Nat) (arguments : List (List Byte))
    (room : (addFields cap arguments).fields.length < cap) {key s : List Byte}
    (admitted : AdmittedKey key) (bound : s.length ≤ 510) :
    let (err, after) := jpFieldSetAdd (addFields cap arguments) (forcedArgument key s)
    err = .ok ∧ EmitsString after key (JsonText.quoted s) ∧ ¬ EmitsString after key s := by
  have field := forced_admitted admitted bound
  have capacity := (add_fields_sound cap arguments).capacity
  have added := add_argument (addFields cap arguments) field
  rw [if_neg (by omega)] at added
  change jpFieldSetAdd _ (forcedArgument key s) = _ at added
  have sound := add_fields_sound cap (arguments ++ [forcedArgument key s])
  rw [add_fields_append, added] at sound
  have present := stored_present (place_field_stored ⟨key, JsonText.quoted s⟩
    (addFields cap arguments).fields)
  rw [added]
  refine ⟨rfl, ?_, ?_⟩
  · exact string_field_emitted sound.admitted present (quoted_string_literal s)
  · intro emits
    obtain ⟨other, inSet, keys, values⟩ := emitted_string_field sound.admitted emits
    -- The keys are distinct, so the field found is the one added.
    have same : other = ⟨key, JsonText.quoted s⟩ :=
      List.inj_on_of_nodup_map sound.distinct inSet present keys
    have unmarked : JsonText.quoted s = s := (congrArg Field.val same).symm.trans values
    have lengths := quoted_length s
    rw [unmarked] at lengths
    omega

/-- With `a="hi"` added to an empty set, `a` is emitted with `"hi"` in its marks. -/
theorem forced_word_quoted :
    let (err, after) := jpFieldSetAdd (addFields 32 []) (forcedArgument [0x61] [0x68, 0x69])
    err = .ok ∧ EmitsString after [0x61] (JsonText.quoted [0x68, 0x69]) ∧
      ¬ EmitsString after [0x61] [0x68, 0x69] := by
  have key : AdmittedKey [0x61] := ⟨by decide, by decide, by decide⟩
  have bound : ([0x68, 0x69] : List Byte).length ≤ 510 := by decide
  exact forced_string_quoted 32 [] (by decide) key bound

/-- The documented argument `forced="123"`. -/
def documentedForced : List Byte :=
  forcedArgument [0x66, 0x6f, 0x72, 0x63, 0x65, 0x64] [0x31, 0x32, 0x33]

/-- With the documented argument on an empty set, the prefix is
`{"forced":"\"123\"","msg":`, and `forced` is not the string `123` in it. -/
theorem documented_forced_refuted :
    (jpFieldSetAdd (addFields 32 []) documentedForced).1 = .ok ∧
      jpJsonPrefixEncoder (jpFieldSetAdd (addFields 32 []) documentedForced).2 =
        [0x7b, 0x22, 0x66, 0x6f, 0x72, 0x63, 0x65, 0x64, 0x22, 0x3a, 0x22, 0x5c, 0x22, 0x31, 0x32,
          0x33, 0x5c, 0x22, 0x22, 0x2c, 0x22, 0x6d, 0x73, 0x67, 0x22, 0x3a] ∧
      ¬ EmitsString (jpFieldSetAdd (addFields 32 []) documentedForced).2
        [0x66, 0x6f, 0x72, 0x63, 0x65, 0x64] [0x31, 0x32, 0x33] := by
  refine ⟨by decide, by decide, ?_⟩
  intro emits
  have admitted := add_fields_admitted 32 [documentedForced]
  obtain ⟨field, inSet, _, value⟩ := emitted_string_field admitted emits
  have marked : ∀ field ∈ (addFields 32 [documentedForced]).fields,
      field.val ≠ [0x31, 0x32, 0x33] := by decide
  exact marked field inSet value

end JPipe
