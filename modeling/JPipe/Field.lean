import JPipe.Effects
import Mathlib.Data.List.Basic

/-!
# Field sets

The fields given with `-f key=value`, as `field.c` keeps them. A C string is the
list of its bytes before the terminating NUL, `strchr` an index into it, and the
lengths stored beside the key and the value are the lengths of the two lists.
Adding to a set answers a status together with the set after the call, so that
what a refused call leaves behind is part of the model.
-/

namespace JPipe

/-- `JP_CONF_FIELD_MAX_KEY`. -/
def confFieldMaxKey : Nat := 32

/-- `JP_CONF_FIELD_MAX_VAL`. -/
def confFieldMaxVal : Nat := 512

/-- `jp_field_t`, its two lengths being those of the lists. -/
structure Field where
  key : List Byte
  val : List Byte
deriving DecidableEq, Repr

/-- `jp_field_set_t`, its `len` being the length of the list. -/
structure FieldSet where
  cap : Nat
  fields : List Field
deriving DecidableEq, Repr

/-- One character of a key. -/
def isFieldKeyChar (c : Byte) : Bool :=
  (97 ≤ c && c ≤ 122) || (65 ≤ c && c ≤ 90) || (48 ≤ c && c ≤ 57) || c == 45 || c == 95

/-- `is_valid_field_key`. -/
def isValidFieldKey (text : List Byte) : Bool := text.all isFieldKeyChar

/-- `strchr`, as an index. -/
def strchr (text : List Byte) (byte : Byte) : Option Nat := text.findIdx? (· == byte)

/-- `create_field`: the key is the first `keyLen` bytes, and the value the
`valLen` bytes after the separator. -/
def createField (kv : List Byte) (keyLen valLen : Nat) : Field :=
  { key := kv.take keyLen, val := (kv.drop (keyLen + 1)).take valLen }

/-- `crete_field_from_kv`. -/
def creteFieldFromKv (kv : List Byte) : Except Errno Field :=
  match strchr kv 0x3d with
  | none => .error .einvFieldKey
  | some 0 => .error .einvFieldKey
  | some keyLen =>
    let valLen := kv.length - keyLen - 1
    if keyLen = 0 || keyLen > confFieldMaxKey then .error .einvFieldKey
    else if valLen = 0 || valLen > confFieldMaxVal then .error .einvFieldVal
    else if !isValidFieldKey (kv.take keyLen) then .error .einvFieldKey
    else .ok (createField kv keyLen valLen)

/-- `jp_field_set_create`. -/
def jpFieldSetCreate (cap : Nat) : FieldSet := { cap, fields := [] }

namespace Calls

/-- The scan of `jp_field_set_add`, from this place in the set on: the first field with
the new key is freed and replaced in place, and a key that no field has goes to the end.
-/
def placeField (newField : Field) : Nat → List Field → Call (List Field)
  | place, [] => do
    move .newField (.field place)
    pure [newField]
  | place, field :: rest =>
    if field.key = newField.key then do
      release (.field place)
      move .newField (.field place)
      pure (newField :: rest)
    else do
      let placed ← placeField newField (place + 1) rest
      pure (field :: placed)

/-- `jp_field_set_add`: the status, and the set after the call. -/
def jpFieldSetAdd (set : FieldSet) (kv : List Byte) : Call (Errno × FieldSet) :=
  if set.fields.length = set.cap then pure (.etooManyField, set)
  else
    match creteFieldFromKv kv with
    | .error err => pure (err, set)
    | .ok newField => do
      allocate .newField
      let fields ← placeField newField 0 set.fields
      pure (.ok, { set with fields })

/-- `jp_field_set_destroy`: the fields in order, and then their set. -/
def jpFieldSetDestroy (set : FieldSet) : Call PUnit := do
  releaseAll ((List.range set.fields.length).map .field)
  release .fieldSet

end Calls

/-- The fields after the scan. -/
def placeField (newField : Field) (fields : List Field) : List Field :=
  (Calls.placeField newField 0 fields).value

/-- What `jp_field_set_add` returns. -/
def jpFieldSetAdd (set : FieldSet) (kv : List Byte) : Errno × FieldSet :=
  (Calls.jpFieldSetAdd set kv).value

/-- The fields after the scan do not depend on where it starts. -/
theorem place_field_from (newField : Field) (place : Nat) (fields : List Field) :
    (Calls.placeField newField place fields).value = placeField newField fields := by
  have same (first second : Nat) : (Calls.placeField newField first fields).value =
      (Calls.placeField newField second fields).value := by
    induction fields generalizing first second with
    | nil => rfl
    | cons field rest ih =>
      rw [Calls.placeField, Calls.placeField]
      split_ifs
      · rfl
      · exact congrArg (field :: ·) (ih (first + 1) (second + 1))
  exact same place 0

/-- The scan replaces the first field if it has the new key, and else goes on behind it. -/
theorem place_field_cons (newField field : Field) (rest : List Field) :
    placeField newField (field :: rest) =
      if field.key = newField.key then newField :: rest else field :: placeField newField rest := by
  rw [placeField, Calls.placeField]
  split_ifs
  · rfl
  · exact congrArg (field :: ·) (place_field_from newField 1 rest)

/-- A call fails on a full set and on an argument that gives no field, and else places the
field. -/
theorem field_set_add_eq (set : FieldSet) (kv : List Byte) :
    jpFieldSetAdd set kv =
      if set.fields.length = set.cap then (.etooManyField, set)
      else
        match creteFieldFromKv kv with
        | .error err => (err, set)
        | .ok newField => (.ok, { set with fields := placeField newField set.fields }) := by
  rw [jpFieldSetAdd, Calls.jpFieldSetAdd]
  split_ifs
  · rfl
  · cases creteFieldFromKv kv <;> rfl

/-- The set after a sequence of calls on a fresh one, refused calls included. -/
def addFields (cap : Nat) (arguments : List (List Byte)) : FieldSet :=
  arguments.foldl (fun set kv => (jpFieldSetAdd set kv).2) (jpFieldSetCreate cap)

/-- What admission establishes of a single field. -/
structure AdmittedField (field : Field) : Prop where
  keyNonempty : 0 < field.key.length
  keyBound : field.key.length ≤ confFieldMaxKey
  keyChars : isValidFieldKey field.key = true
  valNonempty : 0 < field.val.length
  valBound : field.val.length ≤ confFieldMaxVal

/-- An argument that yields a field yields an admitted one. The separator lies
inside the argument, so the two copies have exactly the lengths tested. -/
theorem created_admitted {kv : List Byte} {field : Field}
    (created : creteFieldFromKv kv = .ok field) : AdmittedField field := by
  unfold creteFieldFromKv at created
  cases found : strchr kv 0x3d with
  | none => simp [found] at created
  | some keyLen =>
    have inside : keyLen < kv.length := (List.findIdx?_eq_some_iff_findIdx_eq.mp found).1
    cases keyLen with
    | zero => simp [found] at created
    | succ last =>
      simp only [found] at created
      split at created
      · cases created
      · split at created
        · cases created
        · split at created
          · cases created
          · rename_i keyLengths valLengths chars
            simp only [Bool.or_eq_true, decide_eq_true_eq, not_or, Nat.not_lt] at keyLengths valLengths
            obtain rfl := Except.ok.inj created
            have keyLength : (kv.take (last + 1)).length = last + 1 := by
              rw [List.length_take]
              omega
            have valLength : ((kv.drop (last + 1 + 1)).take (kv.length - (last + 1) - 1)).length =
                kv.length - (last + 1) - 1 := by
              rw [List.length_take, List.length_drop]
              omega
            constructor
            · simp only [createField, keyLength]
              omega
            · simpa only [createField, keyLength] using keyLengths.2
            · simpa [createField] using chars
            · simp only [createField, valLength]
              omega
            · simpa only [createField, valLength] using valLengths.2

/-- Placing a field brings no field but the new one into a set. -/
theorem mem_place_field (newField field : Field) (fields : List Field)
    (member : field ∈ placeField newField fields) : field = newField ∨ field ∈ fields := by
  induction fields with
  | nil => exact Or.inl (List.mem_singleton.mp member)
  | cons first rest ih =>
    by_cases same : first.key = newField.key
    · simp only [place_field_cons, same, ↓reduceIte, List.mem_cons] at member
      rcases member with isNew | inRest
      · exact Or.inl isNew
      · exact Or.inr (List.mem_cons_of_mem first inRest)
    · simp only [place_field_cons, same, ↓reduceIte, List.mem_cons] at member
      rcases member with rfl | inRest
      · exact Or.inr List.mem_cons_self
      · exact (ih inRest).imp_right (List.mem_cons_of_mem first)

/-- Adding keeps every field of a set admitted, whatever the argument. -/
theorem add_keeps_admitted (set : FieldSet) (kv : List Byte)
    (admitted : ∀ field ∈ set.fields, AdmittedField field) :
    ∀ field ∈ (jpFieldSetAdd set kv).2.fields, AdmittedField field := by
  rw [field_set_add_eq]
  split
  · exact admitted
  · cases created : creteFieldFromKv kv with
    | error err => exact admitted
    | ok newField =>
      intro field member
      rcases mem_place_field newField field set.fields member with rfl | present
      · exact created_admitted created
      · exact admitted field present

/-- What every call keeps holds of each set built from a fresh one of which it holds. -/
theorem add_fields_keep {kept : FieldSet → Prop}
    (step : ∀ set kv, kept set → kept (jpFieldSetAdd set kv).2) (cap : Nat)
    (arguments : List (List Byte)) (fresh : kept (jpFieldSetCreate cap)) :
    kept (addFields cap arguments) := by
  unfold addFields
  generalize jpFieldSetCreate cap = set at fresh
  induction arguments generalizing set with
  | nil => exact fresh
  | cons kv rest ih => exact ih _ (step set kv fresh)

/-- Every field of a set built by any sequence of calls is admitted. -/
theorem add_fields_admitted (cap : Nat) (arguments : List (List Byte)) :
    ∀ field ∈ (addFields cap arguments).fields, AdmittedField field := by
  refine add_fields_keep add_keeps_admitted cap arguments ?_
  simp [jpFieldSetCreate]

/-- Placing a field leaves the keys of a set as they are, or adds the new key
at their end when no field has it. -/
theorem place_field_keys (newField : Field) (fields : List Field) :
    (placeField newField fields).map Field.key =
      if newField.key ∈ fields.map Field.key then fields.map Field.key
      else fields.map Field.key ++ [newField.key] := by
  induction fields with
  | nil => rfl
  | cons first rest ih =>
    by_cases same : first.key = newField.key
    · simp [place_field_cons, same]
    · have other : newField.key ≠ first.key := fun eq => same eq.symm
      rw [place_field_cons, if_neg same, List.map_cons, ih]
      by_cases present : newField.key ∈ rest.map Field.key
      · simp [present]
      · simp only [List.map_cons, List.mem_cons, other, present, or_self, ↓reduceIte,
          List.cons_append]

/-- Adding keeps the keys of a set distinct, whatever the argument. -/
theorem add_keeps_keys_distinct (set : FieldSet) (kv : List Byte)
    (distinct : (set.fields.map Field.key).Nodup) :
    ((jpFieldSetAdd set kv).2.fields.map Field.key).Nodup := by
  rw [field_set_add_eq]
  split
  · exact distinct
  · cases creteFieldFromKv kv with
    | error err => exact distinct
    | ok newField =>
      change ((placeField newField set.fields).map Field.key).Nodup
      rw [place_field_keys]
      split_ifs with present
      · exact distinct
      · rw [List.nodup_append]
        refine ⟨distinct, List.nodup_singleton _, ?_⟩
        intro key inSet other isNew same
        exact present (List.mem_singleton.mp isNew ▸ same ▸ inSet)

/-- No two fields of a set built by any sequence of calls have the same key. -/
theorem add_fields_keys_distinct (cap : Nat) (arguments : List (List Byte)) :
    ((addFields cap arguments).fields.map Field.key).Nodup :=
  add_fields_keep add_keeps_keys_distinct cap arguments List.nodup_nil

end JPipe
