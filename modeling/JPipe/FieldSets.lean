import JPipe.Field
import JPipe.OrderedMap

/-!
# What a field set is

An argument is split at its first `=`, and what becomes of it is said once, for
every key without the separator and every value. From this follow the grammar
an argument has to meet, what a call does to the set, and the map a set is.

The checks are made in a fixed order. The capacity is the first of them, so a
full set refuses every argument, one whose key it holds included; the bound on
the key is the one of the configuration, which is smaller than the documented
one.
-/

namespace JPipe

/-- `=`. -/
def separator : Byte := 0x3d

/-- The argument `key=value`. -/
def fieldArgument (key val : List Byte) : List Byte := key ++ separator :: val

/-! ### One argument -/

/-- A text without a separator has no place of one. -/
theorem strchr_absent {text : List Byte} (absent : separator ∉ text) : strchr text 0x3d = none := by
  rw [strchr, List.findIdx?_eq_none_iff]
  intro byte member
  have apart : byte ≠ separator := fun same => absent (same ▸ member)
  exact beq_false_of_ne apart

/-- The first separator after a key without one is where the key ends. -/
theorem strchr_argument {key : List Byte} (first : separator ∉ key) (val : List Byte) :
    strchr (fieldArgument key val) 0x3d = some key.length := by
  have none : key.findIdx? (· == (0x3d : Byte)) = none := strchr_absent first
  rw [strchr, fieldArgument, List.findIdx?_append, none]
  simp [separator, List.findIdx?_cons]

/-- An argument has no separator, or is a key without one, a separator and a value. -/
theorem argument_cases (kv : List Byte) :
    separator ∉ kv ∨ ∃ key val, kv = fieldArgument key val ∧ separator ∉ key := by
  by_cases member : separator ∈ kv
  · obtain ⟨key, val, split, first⟩ := List.eq_append_cons_of_mem member
    exact Or.inr ⟨key, val, split, first⟩
  · exact Or.inl member

/-- The split at the first separator is determined by the argument. -/
theorem argument_unique {key otherKey val otherVal : List Byte} (first : separator ∉ key)
    (otherFirst : separator ∉ otherKey)
    (same : fieldArgument key val = fieldArgument otherKey otherVal) :
    key = otherKey ∧ val = otherVal := by
  have lengths : some key.length = some otherKey.length := by
    rw [← strchr_argument first val, ← strchr_argument otherFirst otherVal, same]
  obtain ⟨keys, rest⟩ := List.append_inj same (Option.some.inj lengths)
  exact ⟨keys, (List.cons.inj rest).2⟩

/-- An argument without a separator is refused for its key. -/
theorem crete_field_unseparated {kv : List Byte} (absent : separator ∉ kv) :
    creteFieldFromKv kv = .error .einvFieldKey := by
  simp [creteFieldFromKv, strchr_absent absent]

/-- What becomes of an argument with this key and value. -/
theorem crete_field_eq {key : List Byte} (first : separator ∉ key) (val : List Byte) :
    creteFieldFromKv (fieldArgument key val) =
      if key = [] ∨ confFieldMaxKey < key.length then .error .einvFieldKey
      else if val = [] ∨ confFieldMaxVal < val.length then .error .einvFieldVal
      else if isValidFieldKey key then .ok ⟨key, val⟩
      else .error .einvFieldKey := by
  have found := strchr_argument first val
  cases key with
  | nil => simp [creteFieldFromKv, found]
  | cons head tail =>
    have size : (fieldArgument (head :: tail) val).length - (tail.length + 1) - 1 = val.length := by
      simp only [fieldArgument, List.length_append, List.length_cons]
      omega
    have text : (fieldArgument (head :: tail) val).take (tail.length + 1) = head :: tail := by
      simp [fieldArgument]
    have made : createField (fieldArgument (head :: tail) val) (tail.length + 1) val.length =
        ⟨head :: tail, val⟩ := by
      simp [createField, fieldArgument]
    rw [creteFieldFromKv, found]
    simp only [List.length_cons, size, text, made, Nat.add_eq_zero_iff, one_ne_zero, and_false,
      decide_false, Bool.false_or, decide_eq_true_eq, gt_iff_lt, Bool.or_eq_true,
      List.length_eq_zero_iff, reduceCtorEq, false_or, Bool.not_eq_eq_eq_not, Bool.not_true]
    cases isValidFieldKey (head :: tail) <;> rfl

/-- An admitted key has no separator in it. -/
theorem admitted_key_first {field : Field} (admitted : AdmittedField field) :
    separator ∉ field.key := by
  intro member
  have char : isFieldKeyChar separator = true := List.all_eq_true.mp admitted.keyChars _ member
  exact absurd char (by decide)

/-- The argument that gives a field. -/
def Field.argument (field : Field) : List Byte := fieldArgument field.key field.val

/-- An argument gives exactly the admitted field whose argument it is. -/
theorem crete_field_ok_iff (kv : List Byte) (field : Field) :
    creteFieldFromKv kv = .ok field ↔ kv = field.argument ∧ AdmittedField field := by
  constructor
  · intro created
    refine ⟨?_, created_admitted created⟩
    rcases argument_cases kv with absent | ⟨key, val, split, first⟩
    · rw [crete_field_unseparated absent] at created
      cases created
    · rw [split, crete_field_eq first] at created
      split_ifs at created
      rw [split, ← Except.ok.inj created]
      rfl
  · intro ⟨split, admitted⟩
    have keyText : ¬ (field.key = [] ∨ confFieldMaxKey < field.key.length) := by
      have nonempty := List.ne_nil_of_length_pos admitted.keyNonempty
      exact not_or.mpr ⟨nonempty, Nat.not_lt.mpr admitted.keyBound⟩
    have valText : ¬ (field.val = [] ∨ confFieldMaxVal < field.val.length) := by
      have nonempty := List.ne_nil_of_length_pos admitted.valNonempty
      exact not_or.mpr ⟨nonempty, Nat.not_lt.mpr admitted.valBound⟩
    rw [split, Field.argument, crete_field_eq (admitted_key_first admitted), if_neg keyText,
      if_neg valText, if_pos admitted.keyChars]

/-- An argument is refused for its key or for its value. -/
theorem crete_field_error {kv : List Byte} {err : Errno} (refused : creteFieldFromKv kv = .error err) :
    err = .einvFieldKey ∨ err = .einvFieldVal := by
  rcases argument_cases kv with absent | ⟨key, val, split, first⟩
  · rw [crete_field_unseparated absent] at refused
    exact Or.inl (Except.error.inj refused).symm
  · rw [split, crete_field_eq first] at refused
    split_ifs at refused
    · exact Or.inl (Except.error.inj refused).symm
    · exact Or.inr (Except.error.inj refused).symm
    · exact Or.inl (Except.error.inj refused).symm

/-! ### One call -/

/-- What a call does with an argument that gives a field. -/
theorem add_argument (set : FieldSet) {field : Field} (admitted : AdmittedField field) :
    jpFieldSetAdd set field.argument =
      if set.fields.length = set.cap then (.etooManyField, set)
      else (.ok, { set with fields := placeField field set.fields }) := by
  have created := (crete_field_ok_iff field.argument field).mpr ⟨rfl, admitted⟩
  rw [field_set_add_eq, created]

/-- Storing a field changes one entry: the one with its key, in place, or a new
one at the end when no entry has its key. -/
inductive Stored (field : Field) : List Field → List Field → Prop where
  | replaced (front : List Field) (old : Field) (back : List Field) (same : old.key = field.key) :
      Stored field (front ++ old :: back) (front ++ field :: back)
  | appended (fields : List Field) (new : field.key ∉ fields.map Field.key) :
      Stored field fields (fields ++ [field])

/-- The scan of a call stores the field. -/
theorem place_field_stored (field : Field) (fields : List Field) :
    Stored field fields (placeField field fields) := by
  induction fields with
  | nil => exact Stored.appended [] (by simp)
  | cons first rest ih =>
    by_cases same : first.key = field.key
    · rw [place_field_cons, if_pos same]
      exact Stored.replaced [] first rest same
    · rw [place_field_cons, if_neg same]
      generalize placeField field rest = placed at ih
      cases ih with
      | replaced front old back found => exact Stored.replaced (first :: front) old back found
      | appended _ new =>
        apply Stored.appended (first :: rest)
        simpa [new] using fun eq : field.key = first.key => same eq.symm

theorem stored_mem {new field : Field} {fields after : List Field} (stored : Stored new fields after)
    (member : field ∈ after) : field = new ∨ field ∈ fields := by
  cases stored with
  | replaced front old back same =>
    simp only [List.mem_append, List.mem_cons] at member ⊢
    tauto
  | appended _ absent =>
    simp only [List.mem_append, List.mem_singleton] at member
    exact member.symm

/-- What a call does to a set: a refused one nothing, and a successful one stores
the field its argument is split into. -/
structure CallEffect (set : FieldSet) (kv : List Byte) (err : Errno) (after : FieldSet) : Prop where
  refused : err ≠ .ok → after = set
  stored : err = .ok → ∃ field : Field, kv = field.argument ∧ separator ∉ field.key ∧
    after.cap = set.cap ∧ Stored field set.fields after.fields

/-- Every call has this effect, whatever the set and the argument. -/
theorem add_effect (set : FieldSet) (kv : List Byte) :
    CallEffect set kv (jpFieldSetAdd set kv).1 (jpFieldSetAdd set kv).2 := by
  rw [field_set_add_eq]
  split
  · exact ⟨fun _ => rfl, fun wrong => by cases wrong⟩
  · cases created : creteFieldFromKv kv with
    | error err =>
      refine ⟨fun _ => rfl, ?_⟩
      intro succeeded
      have code := crete_field_error created
      simp only at succeeded
      simp [succeeded] at code
    | ok field =>
      obtain ⟨text, admitted⟩ := (crete_field_ok_iff kv field).mp created
      refine ⟨fun wrong => absurd rfl wrong, fun _ => ?_⟩
      exact ⟨field, text, admitted_key_first admitted, rfl, place_field_stored field set.fields⟩

/-! ### Every sequence of calls -/

/-- A character a key may have: a letter, a digit, `_` or `-`. -/
def KeyChar (c : Byte) : Prop :=
  (0x61 ≤ c ∧ c ≤ 0x7a) ∨ (0x41 ≤ c ∧ c ≤ 0x5a) ∨ (0x30 ≤ c ∧ c ≤ 0x39) ∨ c = 0x5f ∨ c = 0x2d

/-- The test of the source admits these characters and no other byte. -/
theorem field_key_char_iff (c : Byte) : isFieldKeyChar c = true ↔ KeyChar c := by
  simp only [isFieldKeyChar, KeyChar, Bool.or_eq_true, Bool.and_eq_true, decide_eq_true_eq,
    beq_iff_eq]
  tauto

theorem valid_field_key_iff (key : List Byte) :
    isValidFieldKey key = true ↔ ∀ c ∈ key, KeyChar c := by
  simp [isValidFieldKey, field_key_char_iff]

/-- The set after a sequence of calls on a fresh one.

Its entries are within its capacity and have distinct keys, each is of an
admitted form, and each was produced by a call of the sequence that succeeded,
whose argument is the key, the first separator and the value. -/
structure SoundSet (cap : Nat) (arguments : List (List Byte)) (set : FieldSet) : Prop where
  capacity : set.cap = cap
  bound : set.fields.length ≤ cap
  distinct : (set.fields.map Field.key).Nodup
  admitted : ∀ field ∈ set.fields, AdmittedField field
  chars : ∀ field ∈ set.fields, ∀ c ∈ field.key, KeyChar c
  produced : ∀ field ∈ set.fields, separator ∉ field.key ∧
    ∃ before after, arguments = before ++ field.argument :: after ∧
      (jpFieldSetAdd (addFields cap before) field.argument).1 = .ok

/-- A sequence of calls with one more call at its end. -/
theorem add_fields_append (cap : Nat) (arguments : List (List Byte)) (kv : List Byte) :
    addFields cap (arguments ++ [kv]) = (jpFieldSetAdd (addFields cap arguments) kv).2 := by
  simp [addFields]

/-- A call keeps the capacity of a set and the bound on its entries. -/
theorem add_keeps_bound (set : FieldSet) (kv : List Byte) (bounded : set.fields.length ≤ set.cap) :
    (jpFieldSetAdd set kv).2.cap = set.cap ∧
      (jpFieldSetAdd set kv).2.fields.length ≤ set.cap := by
  rw [field_set_add_eq]
  split
  · exact ⟨rfl, bounded⟩
  · rename_i room
    cases creteFieldFromKv kv with
    | error err => exact ⟨rfl, bounded⟩
    | ok field =>
      refine ⟨rfl, ?_⟩
      have keys := congrArg List.length (place_field_keys field set.fields)
      rw [List.length_map] at keys
      simp only [keys]
      split_ifs <;> simp only [List.length_append, List.length_map, List.length_singleton] <;> omega

/-- Every field of a set was produced by a call that succeeded. -/
theorem add_fields_produced (cap : Nat) (arguments : List (List Byte)) :
    ∀ field ∈ (addFields cap arguments).fields, ∃ before after,
      arguments = before ++ field.argument :: after ∧
        (jpFieldSetAdd (addFields cap before) field.argument).1 = .ok := by
  induction arguments using List.reverseRecOn with
  | nil => intro field member; cases member
  | append_singleton arguments kv ih =>
    intro field member
    rw [add_fields_append] at member
    have earlier (present : field ∈ (addFields cap arguments).fields) :
        ∃ before after, arguments ++ [kv] = before ++ field.argument :: after ∧
          (jpFieldSetAdd (addFields cap before) field.argument).1 = .ok := by
      obtain ⟨before, after, split, succeeded⟩ := ih field present
      exact ⟨before, after ++ [kv], by simp [split], succeeded⟩
    have effect := add_effect (addFields cap arguments) kv
    by_cases succeeded : (jpFieldSetAdd (addFields cap arguments) kv).1 = .ok
    · obtain ⟨new, text, _, _, stored⟩ := effect.stored succeeded
      rcases stored_mem stored member with isNew | present
      · rw [text, ← isNew] at succeeded
        exact ⟨arguments, [], by rw [text, isNew], succeeded⟩
      · exact earlier present
    · rw [effect.refused succeeded] at member
      exact earlier member

/-- The set after every sequence of calls is sound. -/
theorem add_fields_sound (cap : Nat) (arguments : List (List Byte)) :
    SoundSet cap arguments (addFields cap arguments) := by
  have admitted := add_fields_admitted cap arguments
  have sizes : (addFields cap arguments).cap = cap ∧ (addFields cap arguments).fields.length ≤ cap := by
    induction arguments using List.reverseRecOn with
    | nil => exact ⟨rfl, Nat.zero_le cap⟩
    | append_singleton arguments kv ih =>
      obtain ⟨capacity, bound⟩ := ih (add_fields_admitted cap arguments)
      rw [add_fields_append]
      have kept := add_keeps_bound (addFields cap arguments) kv (capacity.symm ▸ bound)
      rwa [capacity] at kept
  refine ⟨sizes.1, sizes.2, add_fields_keys_distinct cap arguments, admitted, ?_, ?_⟩
  · intro field member
    exact (valid_field_key_iff field.key).mp (admitted field member).keyChars
  · intro field member
    exact ⟨admitted_key_first (admitted field member), add_fields_produced cap arguments field member⟩

/-- After each call of every sequence the set is sound, and the call had the
effect its status tells. -/
theorem field_set_calls (cap : Nat) (arguments : List (List Byte)) (kv : List Byte) :
    SoundSet cap (arguments ++ [kv]) (jpFieldSetAdd (addFields cap arguments) kv).2 ∧
      CallEffect (addFields cap arguments) kv (jpFieldSetAdd (addFields cap arguments) kv).1
        (jpFieldSetAdd (addFields cap arguments) kv).2 := by
  refine ⟨?_, add_effect (addFields cap arguments) kv⟩
  rw [← add_fields_append]
  exact add_fields_sound cap (arguments ++ [kv])

/-! ### The map a set is -/

/-- A field as an entry of a map. -/
def Field.entry (field : Field) : List Byte × List Byte := (field.key, field.val)

/-- On these arguments, every set of this capacity acts as a bounded map.

A call answers that there are too many fields exactly when its key is new and as
many keys as there is room for are held, and succeeds otherwise; in the end the
keys held are there in the order in which they first came, each with the value
that came last. -/
structure ActsAsMap (cap : Nat) (given : List Field) : Prop where
  answers : ∀ before field after, given = before ++ field :: after →
    (jpFieldSetAdd (addFields cap (before.map Field.argument)) field.argument).1 =
      if field.key ∉ OrderedMap.heldKeys cap (before.map Field.key) ∧
          cap ≤ (OrderedMap.heldKeys cap (before.map Field.key)).length
        then .etooManyField else .ok
  keys : (addFields cap (given.map Field.argument)).fields.map Field.key =
    OrderedMap.heldKeys cap (given.map Field.key)
  values : ∀ field ∈ (addFields cap (given.map Field.argument)).fields,
    OrderedMap.lastValue field.key (given.map Field.entry) = some field.val

/-- An argument repeats a key that is held while as many keys are held as there
is room for. -/
def RepeatsWhenFull (cap : Nat) (given : List Field) : Prop :=
  ∃ before field after, given = before ++ field :: after ∧
    field.key ∈ OrderedMap.heldKeys cap (before.map Field.key) ∧
    cap ≤ (OrderedMap.heldKeys cap (before.map Field.key)).length

/-- The keys of a set are the first distinct ones, whatever the arguments repeat. -/
theorem add_fields_keys (cap : Nat) (given : List Field)
    (wellFormed : ∀ field ∈ given, AdmittedField field) :
    (addFields cap (given.map Field.argument)).fields.map Field.key =
      OrderedMap.heldKeys cap (given.map Field.key) := by
  induction given using List.reverseRecOn with
  | nil => simp [addFields, jpFieldSetCreate, OrderedMap.heldKeys]
  | append_singleton given field ih =>
    simp only [List.mem_append, List.mem_singleton, or_imp, forall_and, forall_eq] at wellFormed
    have keys := ih wellFormed.1
    have size := congrArg List.length keys
    have sound := add_fields_sound cap (given.map Field.argument)
    rw [List.length_map] at size
    rw [List.map_append, List.map_singleton, add_fields_append, add_argument _ wellFormed.2,
      sound.capacity, List.map_append, List.map_singleton, OrderedMap.held_keys_append, ← keys,
      List.length_map]
    by_cases full : (addFields cap (given.map Field.argument)).fields.length = cap
    · rw [if_pos full, if_pos (Or.inr full.ge)]
    · have room : ¬ cap ≤ (addFields cap (given.map Field.argument)).fields.length := by
        have bound := sound.bound
        omega
      simp only [if_neg full, place_field_keys, room, or_false]

/-- The scan of a call places the field as an entry. -/
theorem place_field_entries (field : Field) (fields : List Field) :
    (placeField field fields).map Field.entry =
      OrderedMap.place field.entry (fields.map Field.entry) := by
  induction fields with
  | nil => rfl
  | cons first rest ih =>
    by_cases same : first.key = field.key
    · simp [place_field_cons, OrderedMap.place, Field.entry, same]
    · have apart : ¬ first.entry.1 = field.entry.1 := same
      rw [place_field_cons, if_neg same, List.map_cons, ih, List.map_cons, OrderedMap.place, if_neg apart]

theorem entry_keys (fields : List Field) :
    (fields.map Field.entry).map Prod.fst = fields.map Field.key := by
  rw [List.map_map]
  rfl

/-- While no argument repeats a held key with the set full, the set is the map
that was offered the same entries. -/
theorem add_fields_entries (cap : Nat) (given : List Field)
    (wellFormed : ∀ field ∈ given, AdmittedField field) (fresh : ¬ RepeatsWhenFull cap given) :
    (addFields cap (given.map Field.argument)).fields.map Field.entry =
      OrderedMap.offerAll cap (given.map Field.entry) := by
  induction given using List.reverseRecOn with
  | nil => rfl
  | append_singleton given field ih =>
    simp only [List.mem_append, List.mem_singleton, or_imp, forall_and, forall_eq] at wellFormed
    have earlier : ¬ RepeatsWhenFull cap given := by
      intro ⟨before, repeated, after, split, held⟩
      exact fresh ⟨before, repeated, after ++ [field], by simp [split], held⟩
    have entries := ih wellFormed.1 earlier
    have keys := add_fields_keys cap given wellFormed.1
    have sound := add_fields_sound cap (given.map Field.argument)
    have size := congrArg List.length entries
    rw [List.length_map] at size
    rw [List.map_append, List.map_singleton, add_fields_append, add_argument _ wellFormed.2,
      sound.capacity, List.map_append, List.map_singleton, OrderedMap.offer_all_append,
      OrderedMap.offer, ← entries]
    by_cases full : (addFields cap (given.map Field.argument)).fields.length = cap
    · have absent : field.key ∉ (addFields cap (given.map Field.argument)).fields.map Field.key := by
        intro held
        refine fresh ⟨given, field, [], by simp, keys ▸ held, ?_⟩
        rw [← keys, List.length_map]
        exact full.ge
      have refused : OrderedMap.Refused cap
          ((addFields cap (given.map Field.argument)).fields.map Field.entry) field.entry := by
        refine ⟨?_, by rw [List.length_map]; exact full.ge⟩
        rw [entry_keys]
        exact absent
      rw [if_pos full, if_pos refused]
    · have bound := sound.bound
      have room : ¬ OrderedMap.Refused cap
          ((addFields cap (given.map Field.argument)).fields.map Field.entry) field.entry := by
        intro refused
        have reached := refused.2
        rw [List.length_map] at reached
        omega
      rw [if_neg full, if_neg room]
      exact place_field_entries field _

/-- A set acts as a bounded map on well-formed arguments exactly when none of
them repeats a held key while the set is full: such a call answers that there
are too many fields and drops the new value. -/
theorem field_set_map_iff (cap : Nat) (given : List Field)
    (wellFormed : ∀ field ∈ given, AdmittedField field) :
    ActsAsMap cap given ↔ ¬ RepeatsWhenFull cap given := by
  have status (before : List Field) (field : Field) (after : List Field)
      (split : given = before ++ field :: after) :
      (jpFieldSetAdd (addFields cap (before.map Field.argument)) field.argument).1 =
        if cap ≤ (OrderedMap.heldKeys cap (before.map Field.key)).length
          then .etooManyField else .ok := by
    have formed : ∀ field ∈ before, AdmittedField field :=
      fun other member => wellFormed other (split ▸ List.mem_append_left _ member)
    have own : AdmittedField field := wellFormed field (split ▸ by simp)
    have sound := add_fields_sound cap (before.map Field.argument)
    have full : (addFields cap (before.map Field.argument)).fields.length = cap ↔
        cap ≤ (OrderedMap.heldKeys cap (before.map Field.key)).length := by
      have bound := sound.bound
      rw [← add_fields_keys cap before formed, List.length_map]
      omega
    rw [add_argument _ own, sound.capacity]
    by_cases reached : cap ≤ (OrderedMap.heldKeys cap (before.map Field.key)).length
    · rw [if_pos (full.mpr reached), if_pos reached]
    · rw [if_neg (fun same => reached (full.mp same)), if_neg reached]
  constructor
  · intro acts ⟨before, field, after, split, held, full⟩
    have answer := acts.answers before field after split
    rw [status before field after split, if_pos full, if_neg (fun new => new.1 held)] at answer
    cases answer
  · intro fresh
    have entries := add_fields_entries cap given wellFormed fresh
    constructor
    · intro before field after split
      rw [status before field after split]
      by_cases full : cap ≤ (OrderedMap.heldKeys cap (before.map Field.key)).length
      · have new : field.key ∉ OrderedMap.heldKeys cap (before.map Field.key) :=
          fun held => fresh ⟨before, field, after, split, held, full⟩
        rw [if_pos full, if_pos ⟨new, full⟩]
      · rw [if_neg full, if_neg (fun refused => full refused.2)]
    · exact add_fields_keys cap given wellFormed
    · intro field member
      apply OrderedMap.offer_all_values cap (given.map Field.entry) field.entry
      rw [← entries]
      exact List.mem_map_of_mem member

/-- With room for one field, `a=1` and then `b=2` act as on a map. -/
theorem new_key_refused : ActsAsMap 1 [⟨[0x61], [0x31]⟩, ⟨[0x62], [0x32]⟩] := by
  refine (field_set_map_iff 1 _ ?_).mpr ?_
  · simp only [List.forall_mem_cons]
    refine ⟨⟨?_, ?_, ?_, ?_, ?_⟩, ⟨?_, ?_, ?_, ?_, ?_⟩, by simp⟩ <;> decide
  · intro ⟨before, field, after, split, held, _⟩
    cases before with
    | nil => simp [OrderedMap.heldKeys] at held
    | cons first rest =>
      obtain ⟨same, split⟩ := List.cons.inj split
      cases rest with
      | nil =>
        obtain ⟨last, _⟩ := List.cons.inj split
        rw [← same, ← last] at held
        exact absurd held (by decide)
      | cons second others => simp at split

/-- With room for one field, `a=2` after `a=1` is refused and `a` keeps the value 1. -/
theorem repeated_key_refused :
    (jpFieldSetAdd (addFields 1 [[0x61, 0x3d, 0x31]]) [0x61, 0x3d, 0x32]).1 = .etooManyField ∧
      ¬ ActsAsMap 1 [⟨[0x61], [0x31]⟩, ⟨[0x61], [0x32]⟩] := by
  refine ⟨by decide, ?_⟩
  intro acts
  have answer := acts.answers [⟨[0x61], [0x31]⟩] ⟨[0x61], [0x32]⟩ [] rfl
  revert answer
  decide

/-! ### The documented grammar -/

/-- The bound on a key in the help text, the manual and the error message. -/
def documentedMaxKey : Nat := 64

/-- A key as documented. -/
def DocumentedKey (key : List Byte) : Prop :=
  1 ≤ key.length ∧ key.length ≤ documentedMaxKey ∧ ∀ c ∈ key, KeyChar c

/-- A value as documented: any bytes. -/
def DocumentedVal (val : List Byte) : Prop := 1 ≤ val.length ∧ val.length ≤ confFieldMaxVal

/-- The status the documentation gives an argument on a set that is not full. -/
structure DocumentedAnswer (kv : List Byte) (err : Errno) : Prop where
  accepted : err = .ok ↔ ∃ key val, kv = fieldArgument key val ∧ DocumentedKey key ∧ DocumentedVal val
  unseparated : separator ∉ kv → err = .einvFieldKey
  badKey : ∀ key val, kv = fieldArgument key val → separator ∉ key → ¬ DocumentedKey key →
    DocumentedVal val → err = .einvFieldKey
  badVal : ∀ key val, kv = fieldArgument key val → DocumentedKey key → ¬ DocumentedVal val →
    err = .einvFieldVal

theorem documented_key_first {key : List Byte} (documented : DocumentedKey key) :
    separator ∉ key := by
  intro member
  have char := (field_key_char_iff separator).mpr (documented.2.2 separator member)
  exact absurd char (by decide)

/-- Up to the bound of the configuration, the documented keys are those admitted. -/
theorem documented_key_iff {key : List Byte} (short : DocumentedKey key → key.length ≤ confFieldMaxKey) :
    DocumentedKey key ↔
      ¬ (key = [] ∨ confFieldMaxKey < key.length) ∧ isValidFieldKey key = true := by
  rw [valid_field_key_iff, not_or, Nat.not_lt]
  constructor
  · intro documented
    exact ⟨⟨List.ne_nil_of_length_pos documented.1, short documented⟩, documented.2.2⟩
  · intro ⟨⟨nonempty, bound⟩, chars⟩
    refine ⟨List.length_pos_iff.mpr nonempty, ?_, chars⟩
    exact Nat.le_trans bound (by decide)

theorem documented_val_iff {val : List Byte} :
    DocumentedVal val ↔ ¬ (val = [] ∨ confFieldMaxVal < val.length) := by
  rw [DocumentedVal, not_or, Nat.not_lt, ← List.length_eq_zero_iff]
  omega

/-- On a set with room, the status of a call is the one of its argument. -/
theorem add_status (set : FieldSet) (room : set.fields.length < set.cap) (kv : List Byte) :
    (jpFieldSetAdd set kv).1 =
      match creteFieldFromKv kv with
      | .error err => err
      | .ok _ => .ok := by
  rw [field_set_add_eq, if_neg room.ne]
  cases creteFieldFromKv kv <;> rfl

/-- The documented status of an argument, from its key and its value. -/
theorem documented_answer_of_split {key val : List Byte} (first : separator ∉ key) {err : Errno}
    (accepted : err = .ok ↔ DocumentedKey key ∧ DocumentedVal val)
    (badKey : ¬ DocumentedKey key → DocumentedVal val → err = .einvFieldKey)
    (badVal : DocumentedKey key → ¬ DocumentedVal val → err = .einvFieldVal) :
    DocumentedAnswer (fieldArgument key val) err := by
  constructor
  · rw [accepted]
    constructor
    · intro documented
      exact ⟨key, val, rfl, documented⟩
    · intro ⟨otherKey, otherVal, same, documented⟩
      obtain ⟨keys, vals⟩ := argument_unique first (documented_key_first documented.1) same
      exact keys ▸ vals ▸ documented
  · intro absent
    exact absurd (by simp [fieldArgument]) absent
  · intro otherKey otherVal same otherFirst bad good
    obtain ⟨keys, vals⟩ := argument_unique first otherFirst same
    exact badKey (keys ▸ bad) (vals ▸ good)
  · intro otherKey otherVal same good bad
    obtain ⟨keys, vals⟩ := argument_unique first (documented_key_first good) same
    exact badVal (keys ▸ good) (vals ▸ bad)

/-- On a set with room, an argument is answered as documented exactly when its
key is not of a documented form beyond the bound of the configuration, and with
such a key it is refused for its key. -/
theorem documented_grammar_iff (set : FieldSet) (room : set.fields.length < set.cap)
    (kv : List Byte) :
    (DocumentedAnswer kv (jpFieldSetAdd set kv).1 ↔
      ¬ ∃ key val, kv = fieldArgument key val ∧ DocumentedKey key ∧
        confFieldMaxKey < key.length) ∧
    ∀ key val, kv = fieldArgument key val → DocumentedKey key → confFieldMaxKey < key.length →
      (jpFieldSetAdd set kv).1 = .einvFieldKey := by
  rw [add_status set room]
  have beyond (key val : List Byte) (split : kv = fieldArgument key val)
      (documented : DocumentedKey key) (long : confFieldMaxKey < key.length) :
      creteFieldFromKv kv = .error .einvFieldKey := by
    rw [split, crete_field_eq (documented_key_first documented), if_pos (Or.inr long)]
  refine ⟨⟨?_, ?_⟩, fun key val split documented long => by
    rw [beyond key val split documented long]⟩
  · intro answer ⟨key, val, split, documented, long⟩
    have refused := beyond key val split documented long
    rw [refused] at answer
    by_cases good : DocumentedVal val
    · have accepted := answer.accepted.mpr ⟨key, val, split, documented, good⟩
      cases accepted
    · have code := answer.badVal key val split documented good
      cases code
  · intro short
    rcases argument_cases kv with absent | ⟨key, val, split, first⟩
    · have unsplit (key val : List Byte) : kv ≠ fieldArgument key val := by
        intro split
        exact absent (split ▸ by simp [fieldArgument])
      rw [crete_field_unseparated absent]
      constructor
      · simp [unsplit]
      · exact fun _ => rfl
      · exact fun _ _ _ _ _ _ => rfl
      · exact fun key val split => absurd split (unsplit key val)
    · have keys : DocumentedKey key ↔ _ := documented_key_iff
        (fun documented => Nat.not_lt.mp fun long => short ⟨key, val, split, documented, long⟩)
      have vals : DocumentedVal val ↔ _ := documented_val_iff
      rw [split, crete_field_eq first]
      apply documented_answer_of_split first
      · rw [keys, vals]
        split_ifs <;> simp_all
      · intro bad good
        rw [if_neg (vals.mp good)]
        rw [keys, not_and_or, not_not] at bad
        split_ifs <;> simp_all
      · intro good bad
        have badVal : val = [] ∨ confFieldMaxVal < val.length := not_not.mp (fun ok => bad (vals.mpr ok))
        rw [if_neg (keys.mp good).1, if_pos badVal]

/-- On an empty set, `a=1` is accepted, as documented. -/
theorem short_key_documented :
    DocumentedAnswer [0x61, 0x3d, 0x31] (jpFieldSetAdd (jpFieldSetCreate 32) [0x61, 0x3d, 0x31]).1 := by
  refine (documented_grammar_iff (jpFieldSetCreate 32) (by decide) _).1.mpr ?_
  intro ⟨key, val, split, _, long⟩
  have lengths := congrArg List.length split
  simp only [fieldArgument, List.length_append, List.length_cons, List.length_nil,
    confFieldMaxKey] at lengths long
  omega

/-- A key of 33 letters is documented, and refused on an empty set. -/
theorem long_key_refused :
    (jpFieldSetAdd (jpFieldSetCreate 32) (fieldArgument (List.replicate 33 0x6b) [0x76])).1 =
        .einvFieldKey ∧
      ¬ DocumentedAnswer (fieldArgument (List.replicate 33 0x6b) [0x76])
        (jpFieldSetAdd (jpFieldSetCreate 32) (fieldArgument (List.replicate 33 0x6b) [0x76])).1 := by
  have status : (jpFieldSetAdd (jpFieldSetCreate 32)
      (fieldArgument (List.replicate 33 0x6b) [0x76])).1 = .einvFieldKey := by decide
  refine ⟨status, ?_⟩
  intro answer
  have key : DocumentedKey (List.replicate 33 0x6b) := by
    refine ⟨by decide, by decide, ?_⟩
    intro c member
    rw [List.eq_of_mem_replicate member]
    exact (field_key_char_iff _).mp (by decide)
  have accepted := answer.accepted.mpr ⟨_, _, rfl, key, by decide, by decide⟩
  rw [status] at accepted
  cases accepted

end JPipe
