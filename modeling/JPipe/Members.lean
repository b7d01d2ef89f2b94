import JPipe.Record

/-!
# The members of a record

The prefix of a record, before the message key, is an opening brace and one
member with a comma for each field. Such a text has one reading only: the
quotation mark that ends a name or a string is the first that is not escaped,
and an unquoted value ends at its comma. What is read determines the fields, so
no value can be taken for another member or for part of one.

A whole record is read the same way, up to the quotation mark its postfix closes
the message with. Its names are the keys of the fields and then the message key,
and nothing keeps a field from having that key.
-/

namespace JsonText

/-- A value text without white space or brackets: a string, a number or a
literal name. -/
def Token (text : List Byte) : Prop :=
  (∃ body, text = quoted body ∧ (unescape body).isSome) ∨
    (Number text ∨ text = [0x74, 0x72, 0x75, 0x65] ∨ text = [0x66, 0x61, 0x6c, 0x73, 0x65] ∨
      text = [0x6e, 0x75, 0x6c, 0x6c])

/-- A raw member whose name is readable and whose value is a token. -/
def PlainMember (member : List Byte × List Byte) : Prop :=
  (unescape member.1).isSome ∧ Token member.2

/-- The text `"name":token,` of a raw member. -/
def memberText (member : List Byte × List Byte) : List Byte :=
  quoted member.1 ++ 0x3a :: (member.2 ++ [0x2c])

/-- An object cut off after the comma of its last member, as these raw members. -/
structure OpenObject (members : List (List Byte × List Byte)) (text : List Byte) : Prop where
  plain : ∀ member ∈ members, PlainMember member
  text : text = 0x7b :: members.flatMap memberText

/-- Where neither part can be longer, a mark tells the two parts around it. -/
theorem delimited_unique {mark : Byte} {first second left right : List Byte}
    (firstEnds : ∀ more, second ≠ first ++ mark :: more)
    (secondEnds : ∀ more, first ≠ second ++ mark :: more)
    (same : first ++ mark :: left = second ++ mark :: right) : first = second ∧ left = right := by
  rcases List.append_eq_append_iff.mp same with ⟨more, rfl, rest⟩ | ⟨more, rfl, rest⟩
  · cases more with
    | nil => exact ⟨by simp, (List.cons_eq_cons.mp rest).2⟩
    | cons head tail =>
      obtain ⟨rfl, _⟩ := List.cons_eq_cons.mp rest
      exact absurd rfl (firstEnds tail)
  · cases more with
    | nil => exact ⟨by simp, (List.cons_eq_cons.mp rest).2.symm⟩
    | cons head tail =>
      obtain ⟨rfl, _⟩ := List.cons_eq_cons.mp rest
      exact absurd rfl (secondEnds tail)

/-- A guarded text does not go on after a text that leaves its reader inside
and a quotation mark. -/
theorem guarded_ends {text first : List Byte} (guarded : Guarded text)
    (closed : scan .inside first = some .inside) (more : List Byte) :
    text ≠ first ++ quotationMark :: more := by
  intro split
  have marked := guarded first more split
  rw [closed] at marked
  cases marked

/-- The quotation mark that ends a readable body is the first not escaped. -/
theorem body_unique {first second left right : List Byte} (firstRead : (unescape first).isSome)
    (secondRead : (unescape second).isSome)
    (same : first ++ quotationMark :: left = second ++ quotationMark :: right) :
    first = second ∧ left = right := by
  have firstElements : (elements first).isSome := by simpa [unescape] using firstRead
  have secondElements : (elements second).isSome := by simpa [unescape] using secondRead
  apply delimited_unique
  · exact guarded_ends (guarded_body second secondElements) (scan_body first firstElements)
  · exact guarded_ends (guarded_body first firstElements) (scan_body second secondElements)
  · exact same

/-- An unquoted token has no mark of a string and no comma. -/
theorem bare_token_plain {text : List Byte}
    (bare : Number text ∨ text = [0x74, 0x72, 0x75, 0x65] ∨ text = [0x66, 0x61, 0x6c, 0x73, 0x65] ∨
      text = [0x6e, 0x75, 0x6c, 0x6c]) :
    ∀ byte ∈ text, byte ≠ quotationMark ∧ byte ≠ escape ∧ byte ≠ 0x2c := by
  have named (name : List Byte) (plain : name.all (fun byte =>
      byte ≠ quotationMark ∧ byte ≠ escape ∧ byte ≠ 0x2c) = true) :
      ∀ byte ∈ name, byte ≠ quotationMark ∧ byte ≠ escape ∧ byte ≠ 0x2c := by simpa using plain
  rcases bare with number | rfl | rfl | rfl
  · intro byte member
    exact number_byte_plain (number_bytes number byte member)
  · exact named _ (by decide)
  · exact named _ (by decide)
  · exact named _ (by decide)

/-- A string is no text without quotation marks, whatever follows the two. -/
theorem quoted_not_bare {body bare left right : List Byte} (plain : quotationMark ∉ bare) :
    quoted body ++ left ≠ bare ++ 0x2c :: right := by
  intro same
  cases bare with
  | nil => exact absurd (List.cons_eq_cons.mp same).1 (by decide)
  | cons head tail =>
    have first : quotationMark = head := (List.cons_eq_cons.mp same).1
    exact plain (first ▸ List.mem_cons_self)

/-- A token is told from the comma after it and what follows. -/
theorem token_unique {first second left right : List Byte} (firstToken : Token first)
    (secondToken : Token second) (same : first ++ 0x2c :: left = second ++ 0x2c :: right) :
    first = second ∧ left = right := by
  rcases firstToken with ⟨body, rfl, read⟩ | firstBare <;>
    rcases secondToken with ⟨other, rfl, otherRead⟩ | secondBare
  · have inner : body ++ quotationMark :: 0x2c :: left = other ++ quotationMark :: 0x2c :: right := by
      simpa [quoted] using same
    obtain ⟨rfl, rest⟩ := body_unique read otherRead inner
    exact ⟨rfl, (List.cons_eq_cons.mp rest).2⟩
  · have plain : quotationMark ∉ second := fun member => (bare_token_plain secondBare _ member).1 rfl
    exact absurd same (quoted_not_bare plain)
  · have plain : quotationMark ∉ first := fun member => (bare_token_plain firstBare _ member).1 rfl
    exact absurd same.symm (quoted_not_bare plain)
  · refine delimited_unique ?_ ?_ same
    · rintro more rfl
      exact (bare_token_plain secondBare 0x2c (by simp)).2.2 rfl
    · rintro more rfl
      exact (bare_token_plain firstBare 0x2c (by simp)).2.2 rfl

/-- A member is told from what follows it. -/
theorem member_unique {first second : List Byte × List Byte} {left right : List Byte}
    (firstPlain : PlainMember first) (secondPlain : PlainMember second)
    (same : memberText first ++ left = memberText second ++ right) :
    first = second ∧ left = right := by
  have inner : first.1 ++ quotationMark :: 0x3a :: (first.2 ++ 0x2c :: left) =
      second.1 ++ quotationMark :: 0x3a :: (second.2 ++ 0x2c :: right) := by
    simpa [memberText, quoted] using same
  obtain ⟨names, rest⟩ := body_unique firstPlain.1 secondPlain.1 inner
  obtain ⟨values, following⟩ :=
    token_unique firstPlain.2 secondPlain.2 (List.cons_eq_cons.mp rest).2
  exact ⟨Prod.ext names values, following⟩

/-- A run of members has one reading. -/
theorem members_unique {first second : List (List Byte × List Byte)}
    (firstPlain : ∀ member ∈ first, PlainMember member)
    (secondPlain : ∀ member ∈ second, PlainMember member)
    (same : first.flatMap memberText = second.flatMap memberText) : first = second := by
  induction first generalizing second with
  | nil =>
    cases second with
    | nil => rfl
    | cons member rest => simp [memberText, quoted] at same
  | cons member rest ih =>
    cases second with
    | nil => simp [memberText, quoted] at same
    | cons other others =>
      obtain ⟨headPlain, restPlain⟩ := List.forall_mem_cons.mp firstPlain
      obtain ⟨otherPlain, othersPlain⟩ := List.forall_mem_cons.mp secondPlain
      rw [List.flatMap_cons, List.flatMap_cons] at same
      obtain ⟨rfl, following⟩ := member_unique headPlain otherPlain same
      rw [ih restPlain othersPlain following]

/-- An object cut off after a member has one reading. -/
theorem open_object_unique {first second : List (List Byte × List Byte)} {text : List Byte}
    (firstReads : OpenObject first text) (secondReads : OpenObject second text) : first = second := by
  have same := firstReads.text.symm.trans secondReads.text
  exact members_unique firstReads.plain secondReads.plain (List.cons_eq_cons.mp same).2

/-- An object whose last value is a body that a quotation mark closes before the
brace: its raw members, the name of the last, and the body. -/
structure ClosedObject (members : List (List Byte × List Byte)) (name body text : List Byte) :
    Prop where
  plain : ∀ member ∈ members, PlainMember member
  named : (unescape name).isSome
  readable : (unescape body).isSome
  text : text = 0x7b :: (members.flatMap memberText ++
    (quoted name ++ 0x3a :: (body ++ quotationMark :: [0x7d, 0x0a])))

/-- No member can be read where the last name and its body stand: after the colon
the next quotation mark closes the body, and the one that ends a string or opens
the following name has more than a brace after it. -/
theorem last_not_member {name body : List Byte} {member : List Byte × List Byte}
    {left right : List Byte} (named : (unescape name).isSome) (readable : (unescape body).isSome)
    (plain : PlainMember member) :
    quoted name ++ 0x3a :: (body ++ quotationMark :: [0x7d, 0x0a]) ≠
      memberText member ++ quotationMark :: (left ++ quotationMark :: right) := by
  intro same
  have inner : name ++ quotationMark :: 0x3a :: (body ++ quotationMark :: [0x7d, 0x0a]) =
      member.1 ++ quotationMark :: 0x3a ::
        (member.2 ++ 0x2c :: quotationMark :: (left ++ quotationMark :: right)) := by
    simpa [memberText, quoted] using same
  obtain ⟨_, rest⟩ := body_unique named plain.1 inner
  have values := (List.cons_eq_cons.mp rest).2
  have elementsRead : (elements body).isSome := by simpa [unescape] using readable
  rcases plain.2 with ⟨string, token, read⟩ | bare
  · have strings : body ++ quotationMark :: [0x7d, 0x0a] = [] ++ quotationMark ::
        (string ++ quotationMark :: 0x2c :: quotationMark :: (left ++ quotationMark :: right)) := by
      simpa [token, quoted] using values
    obtain ⟨_, ends⟩ := body_unique readable (by rfl) strings
    have mark : quotationMark ∈ ([0x7d, 0x0a] : List Byte) := by simp [ends]
    exact absurd mark (by decide)
  · have unmarked : ∀ byte ∈ member.2 ++ [0x2c], byte ≠ quotationMark ∧ byte ≠ escape := by
      intro byte present
      rcases List.mem_append.mp present with inValue | comma
      · exact ⟨(bare_token_plain bare byte inValue).1, (bare_token_plain bare byte inValue).2.1⟩
      · exact List.mem_singleton.mp comma ▸ by decide
    have closed : scan .inside (member.2 ++ [0x2c]) = some .inside :=
      scan_plain _ unmarked .inside (by decide)
    have bodies : body ++ quotationMark :: [0x7d, 0x0a] =
        (member.2 ++ [0x2c]) ++ quotationMark :: (left ++ quotationMark :: right) := by
      simpa using values
    have ended : body = member.2 ++ [0x2c] ∧ [0x7d, 0x0a] = left ++ quotationMark :: right := by
      refine delimited_unique ?_ (guarded_ends (guarded_body body elementsRead) closed) bodies
      intro more split
      exact (unmarked quotationMark (by simp [split])).1 rfl
    have mark : quotationMark ∈ ([0x7d, 0x0a] : List Byte) := by simp [ended.2]
    exact absurd mark (by decide)

/-- A text is read in one way only as the beginning of an object up to an unquoted body:
the members before it, its name and the body are determined. -/
theorem closed_object_unique {first second : List (List Byte × List Byte)}
    {name body otherName otherBody text : List Byte} (one : ClosedObject first name body text)
    (other : ClosedObject second otherName otherBody text) :
    first = second ∧ name = otherName ∧ body = otherBody := by
  obtain ⟨firstPlain, named, readable, split⟩ := one
  obtain ⟨secondPlain, otherNamed, otherReadable, otherSplit⟩ := other
  have same := (List.cons_eq_cons.mp (split.symm.trans otherSplit)).2
  clear split otherSplit
  have starts (members : List (List Byte × List Byte)) (last rest : List Byte) :
      ∃ left right, members.flatMap memberText ++ (quoted last ++ 0x3a :: rest) =
        quotationMark :: (left ++ quotationMark :: right) := by
    cases members with
    | nil => exact ⟨last, 0x3a :: rest, by simp [quoted]⟩
    | cons member others =>
      exact ⟨member.1, 0x3a :: (member.2 ++ [0x2c]) ++
        (others.flatMap memberText ++ (quoted last ++ 0x3a :: rest)), by simp [memberText, quoted]⟩
  induction first generalizing second with
  | nil =>
    cases second with
    | nil =>
      have inner : name ++ quotationMark :: 0x3a :: (body ++ quotationMark :: [0x7d, 0x0a]) =
          otherName ++ quotationMark :: 0x3a :: (otherBody ++ quotationMark :: [0x7d, 0x0a]) := by
        simpa [quoted] using same
      obtain ⟨rfl, rest⟩ := body_unique named otherNamed inner
      obtain ⟨rfl, _⟩ := body_unique readable otherReadable (List.cons_eq_cons.mp rest).2
      exact ⟨rfl, rfl, rfl⟩
    | cons member others =>
      obtain ⟨left, right, opening⟩ :=
        starts others otherName (otherBody ++ quotationMark :: [0x7d, 0x0a])
      rw [List.flatMap_cons, List.append_assoc, opening] at same
      exact absurd same (last_not_member named readable (List.forall_mem_cons.mp secondPlain).1)
  | cons member rest ih =>
    obtain ⟨headPlain, restPlain⟩ := List.forall_mem_cons.mp firstPlain
    cases second with
    | nil =>
      obtain ⟨left, right, opening⟩ := starts rest name (body ++ quotationMark :: [0x7d, 0x0a])
      rw [List.flatMap_cons, List.append_assoc, opening] at same
      exact absurd same.symm (last_not_member otherNamed otherReadable headPlain)
    | cons second others =>
      obtain ⟨secondHead, othersPlain⟩ := List.forall_mem_cons.mp secondPlain
      rw [List.flatMap_cons, List.flatMap_cons, List.append_assoc, List.append_assoc] at same
      obtain ⟨rfl, following⟩ := member_unique headPlain secondHead same
      obtain ⟨rfl, names, bodies⟩ := ih restPlain othersPlain following
      exact ⟨rfl, names, bodies⟩

/-- The member a reader keeps for a name when the first of a name counts. -/
def firstNamed (key : List Byte) (members : List (List Byte × List Byte)) :
    Option (List Byte × List Byte) :=
  members.find? fun member => unescape member.1 = some key

/-- The member a reader keeps for a name when the last of a name counts. -/
def lastNamed (key : List Byte) (members : List (List Byte × List Byte)) :
    Option (List Byte × List Byte) :=
  firstNamed key members.reverse

/-- Under distinct names, a member is the first of its name. -/
theorem first_named_of_distinct {members : List (List Byte × List Byte)}
    (distinct : (members.map fun member => unescape member.1).Nodup) {key : List Byte}
    {member : List Byte × List Byte} (present : member ∈ members)
    (named : unescape member.1 = some key) : firstNamed key members = some member := by
  induction members with
  | nil => cases present
  | cons head rest ih =>
    rw [List.map_cons, List.nodup_cons] at distinct
    rcases List.mem_cons.mp present with rfl | inRest
    · simp [firstNamed, named]
    · have apart : unescape head.1 ≠ some key := by
        intro same
        exact distinct.1 (List.mem_map.mpr ⟨member, inRest, named.trans same.symm⟩)
      have found := ih distinct.2 inRest
      simpa [firstNamed, apart] using found

/-- Under distinct names, a member is the last one of its name, as a reader that lets
later members win would find it. -/
theorem last_named_of_distinct {members : List (List Byte × List Byte)}
    (distinct : (members.map fun member => unescape member.1).Nodup) {key : List Byte}
    {member : List Byte × List Byte} (present : member ∈ members)
    (named : unescape member.1 = some key) : lastNamed key members = some member := by
  refine first_named_of_distinct ?_ (List.mem_reverse.mpr present) named
  rw [List.map_reverse]
  exact List.nodup_reverse.mpr distinct

end JsonText

namespace JPipe

/-- A text that stands for a value is a token. -/
theorem value_of_token {val text : List Byte} (stands : ValueOf val text) : JsonText.Token text := by
  rcases stands with ⟨body, rfl, read⟩ | ⟨rfl, bare⟩
  · exact Or.inl ⟨body, rfl, by rw [read]; rfl⟩
  · exact Or.inr bare

/-- A member that stands for a field can be read. -/
theorem member_of_plain {field : Field} {member : List Byte × List Byte}
    (stands : MemberOf field member) : JsonText.PlainMember member :=
  ⟨congrArg Option.isSome stands.1, value_of_token stands.2⟩

/-- A text stands for one value only: a string is no number and no literal name. -/
theorem value_of_unique {first second text : List Byte} (one : ValueOf first text)
    (other : ValueOf second text) : first = second := by
  have apart {val body : List Byte} (bare : BareValue val) : val ≠ JsonText.quoted body := by
    rintro rfl
    exact (JsonText.bare_token_plain bare JsonText.quotationMark (by simp [JsonText.quoted])).1 rfl
  rcases one with ⟨body, rfl, read⟩ | ⟨rfl, bare⟩ <;>
    rcases other with ⟨otherBody, split, otherRead⟩ | ⟨split, otherBare⟩
  · obtain rfl : body = otherBody := by simpa [JsonText.quoted] using split
    exact Option.some.inj (read.symm.trans otherRead)
  · exact absurd split.symm (apart otherBare)
  · exact absurd split (apart bare)
  · exact split

/-- A member stands for one field only. -/
theorem member_of_unique {first second : Field} {member : List Byte × List Byte}
    (one : MemberOf first member) (other : MemberOf second member) : first = second := by
  have keys : first.key = second.key := Option.some.inj (one.1.symm.trans other.1)
  have values : first.val = second.val := value_of_unique one.2 other.2
  cases first
  cases second
  exact congrArg₂ Field.mk keys values

/-- Two lists of fields for which the same members stand, one by one, are the same fields
in the same order. -/
theorem fields_of_members {first second : List Field} {members : List (List Byte × List Byte)}
    (one : List.Forall₂ MemberOf first members) (other : List.Forall₂ MemberOf second members) :
    first = second := by
  induction one generalizing second with
  | nil => cases other; rfl
  | cons stands _ ih =>
    cases other with
    | cons otherStands others => rw [member_of_unique stands otherStands, ih others]

/-- The raw members of admitted fields stand for them one by one. -/
theorem raw_members_of (fields : List Field) (admitted : ∀ field ∈ fields, AdmittedField field) :
    List.Forall₂ MemberOf fields (fields.map rawMember) := by
  induction fields with
  | nil => exact List.Forall₂.nil
  | cons field rest ih =>
    obtain ⟨first, others⟩ := List.forall_mem_cons.mp admitted
    exact List.Forall₂.cons (raw_member_of field first) (ih others)

/-- The prefix before its message key. -/
def prefixMembers (fieldSet : FieldSet) : List Byte :=
  0x7b :: (fieldSet.fields.map rawMember).flatMap JsonText.memberText

theorem prefix_encoder_eq (fieldSet : FieldSet) :
    jpJsonPrefixEncoder fieldSet = prefixMembers fieldSet ++ msgKey := by
  have each : fieldSet.fields.flatMap encodeField =
      (fieldSet.fields.map rawMember).flatMap JsonText.memberText := by
    rw [List.flatMap_map]
    exact List.flatMap_congr fun field _ => encode_field_eq field
  rw [jpJsonPrefixEncoder, prefixMembers, each]
  rfl

/-- What stands before the message key is an object cut off after the raw
members of the fields. -/
theorem prefix_members_open (fieldSet : FieldSet)
    (admitted : ∀ field ∈ fieldSet.fields, AdmittedField field) :
    JsonText.OpenObject (fieldSet.fields.map rawMember) (prefixMembers fieldSet) := by
  refine ⟨?_, rfl⟩
  intro member present
  obtain ⟨field, inSet, rfl⟩ := List.mem_map.mp present
  exact member_of_plain (raw_member_of field (admitted field inSet))

/-- For every set built by additions, the prefix before its message key is read
in one way, as members that stand for the fields in order, and another set with
the same prefix has the same fields. -/
theorem prefix_reads_back (cap : Nat) (arguments : List (List Byte)) :
    (∃ head members, jpJsonPrefixEncoder (addFields cap arguments) = head ++ msgKey ∧
      JsonText.OpenObject members head ∧
      List.Forall₂ MemberOf (addFields cap arguments).fields members ∧
      ∀ others, JsonText.OpenObject others head → others = members) ∧
    ∀ otherCap otherArguments,
      jpJsonPrefixEncoder (addFields otherCap otherArguments) =
        jpJsonPrefixEncoder (addFields cap arguments) →
      (addFields otherCap otherArguments).fields = (addFields cap arguments).fields := by
  have admitted := add_fields_admitted cap arguments
  have opens := prefix_members_open (addFields cap arguments) admitted
  have stand := raw_members_of _ admitted
  constructor
  · exact ⟨_, _, prefix_encoder_eq _, opens, stand,
      fun others reads => JsonText.open_object_unique reads opens⟩
  · intro otherCap otherArguments same
    have otherAdmitted := add_fields_admitted otherCap otherArguments
    have heads : prefixMembers (addFields otherCap otherArguments) =
        prefixMembers (addFields cap arguments) := by
      rw [prefix_encoder_eq, prefix_encoder_eq] at same
      exact List.append_cancel_right same
    have otherOpens := prefix_members_open (addFields otherCap otherArguments) otherAdmitted
    have members := JsonText.open_object_unique (heads ▸ otherOpens) opens
    exact fields_of_members (members ▸ raw_members_of _ otherAdmitted) stand

/-- The bytes of the message key, `msg`. -/
def msgName : List Byte := [0x6d, 0x73, 0x67]

/-- What a reader of the members gets whichever member of a name it keeps: the
names are distinct, each field is under its key and the line under the message key. -/
structure EachUnderItsKey (fields : List Field) (line : List Byte)
    (members : List (List Byte × List Byte)) : Prop where
  distinct : (members.map fun member => JsonText.unescape member.1).Nodup
  fields : ∀ field ∈ fields, ∃ member, MemberOf field member ∧
    JsonText.firstNamed field.key members = some member ∧
    JsonText.lastNamed field.key members = some member
  message : ∃ member, MessageOf line member ∧
    JsonText.firstNamed msgName members = some member ∧
    JsonText.lastNamed msgName members = some member

/-- A record is read as the raw members of its fields, the message key and the
escaped line, up to the quotation mark that closes the message. -/
theorem emitted_record_closed (fieldSet : FieldSet)
    (admitted : ∀ field ∈ fieldSet.fields, AdmittedField field) (line : List Byte) :
    JsonText.ClosedObject (fieldSet.fields.map rawMember) msgName (line.flatMap escaped)
      (emittedRecord fieldSet line) := by
  have encoded : jpJsonValueEncoder line (line.length * jsonEscapeMul) = line.flatMap escaped :=
    value_encoder_whole (Nat.le_refl line.length)
  constructor
  · exact (prefix_members_open fieldSet admitted).plain
  · rfl
  · rw [unescape_escaped]
    rfl
  · simp [emittedRecord, prefix_encoder_eq, prefixMembers, encoded, jpJsonPostfixEncoder, msgKey,
      msgName, JsonText.quoted, JsonText.quotationMark]

/-- The names read from the raw members of admitted fields are their keys. -/
theorem raw_member_names (fields : List Field) (admitted : ∀ field ∈ fields, AdmittedField field) :
    (fields.map rawMember).map (fun member => JsonText.unescape member.1) =
      (fields.map Field.key).map some := by
  rw [List.map_map, List.map_map]
  apply List.map_congr_left
  intro field member
  exact (raw_member_of field (admitted field member)).1

/-- Members for distinct keys, none of them the message key, and the message
after them are each under their key. -/
theorem each_under_its_key (fields : List Field) (line body : List Byte)
    (admitted : ∀ field ∈ fields, AdmittedField field) (keys : (fields.map Field.key).Nodup)
    (apart : ∀ field ∈ fields, field.key ≠ msgName) (read : JsonText.unescape body = some line) :
    EachUnderItsKey fields line
      (fields.map rawMember ++ [(msgName, JsonText.quoted body)]) := by
  have message : JsonText.unescape msgName = some msgName := by decide
  have distinct : ((fields.map rawMember ++ [(msgName, JsonText.quoted body)]).map fun member =>
      JsonText.unescape member.1).Nodup := by
    rw [List.map_append, raw_member_names fields admitted, List.nodup_append]
    refine ⟨keys.map (Option.some_injective _), List.nodup_singleton _, ?_⟩
    intro name inFields other isMessage same
    obtain ⟨key, inKeys, rfl⟩ := List.mem_map.mp inFields
    obtain ⟨field, inSet, rfl⟩ := List.mem_map.mp inKeys
    rw [List.map_singleton, List.mem_singleton, message] at isMessage
    exact apart field inSet (Option.some.inj (same.trans isMessage))
  constructor
  · exact distinct
  · intro field inSet
    have stands := raw_member_of field (admitted field inSet)
    have present : rawMember field ∈
        fields.map rawMember ++ [(msgName, JsonText.quoted body)] :=
      List.mem_append_left _ (List.mem_map_of_mem inSet)
    exact ⟨rawMember field, stands, JsonText.first_named_of_distinct distinct present stands.1,
      JsonText.last_named_of_distinct distinct present stands.1⟩
  · have present : (msgName, JsonText.quoted body) ∈
        fields.map rawMember ++ [(msgName, JsonText.quoted body)] := by simp
    exact ⟨_, ⟨message, body, rfl, read⟩,
      JsonText.first_named_of_distinct distinct present message,
      JsonText.last_named_of_distinct distinct present message⟩

/-- Every record of a set built by additions is read in one way, and its names
are distinct, with every field and the line under its own key, exactly when no
field has the message key. -/
theorem names_distinct_iff (cap : Nat) (arguments : List (List Byte)) (line : List Byte) :
    ∃ members name body,
      JsonText.ClosedObject members name body (emittedRecord (addFields cap arguments) line) ∧
      (∀ others otherName otherBody,
        JsonText.ClosedObject others otherName otherBody
          (emittedRecord (addFields cap arguments) line) →
        others = members ∧ otherName = name ∧ otherBody = body) ∧
      (EachUnderItsKey (addFields cap arguments).fields line
          (members ++ [(name, JsonText.quoted body)]) ↔
        ∀ field ∈ (addFields cap arguments).fields, field.key ≠ msgName) := by
  have admitted := add_fields_admitted cap arguments
  have closed := emitted_record_closed (addFields cap arguments) admitted line
  refine ⟨_, _, _, closed, fun others otherName otherBody reads =>
    JsonText.closed_object_unique reads closed, ?_, ?_⟩
  · intro each field inSet same
    have distinct := each.distinct
    rw [List.map_append, raw_member_names _ admitted, List.nodup_append] at distinct
    have inNames : some field.key ∈ ((addFields cap arguments).fields.map Field.key).map some :=
      List.mem_map_of_mem (List.mem_map_of_mem inSet)
    exact distinct.2.2 (some field.key) inNames (some msgName) (by simp [msgName]; decide)
      (congrArg some same)
  · intro apart
    exact each_under_its_key _ line _ admitted (add_fields_keys_distinct cap arguments) apart
      (unescape_escaped line)

/-- With the field `msg=x` and the line `a`, the record is `{"msg":"x","msg":a"}`
and a newline, and every reading of it has the name `msg` twice. -/
theorem message_key_refuted :
    JsonText.ClosedObject [(msgName, JsonText.quoted [0x78])] msgName [0x61]
        (emittedRecord (addFields 32 [[0x6d, 0x73, 0x67, 0x3d, 0x78]]) [0x61]) ∧
      ∀ members name body,
        JsonText.ClosedObject members name body
          (emittedRecord (addFields 32 [[0x6d, 0x73, 0x67, 0x3d, 0x78]]) [0x61]) →
        ¬ ((members ++ [(name, JsonText.quoted body)]).map
          fun member => JsonText.unescape member.1).Nodup := by
  have closed : JsonText.ClosedObject [(msgName, JsonText.quoted [0x78])] msgName [0x61]
      (emittedRecord (addFields 32 [[0x6d, 0x73, 0x67, 0x3d, 0x78]]) [0x61]) := by
    refine ⟨?_, rfl, rfl, by decide⟩
    intro member present
    obtain rfl := List.mem_singleton.mp present
    exact ⟨rfl, Or.inl ⟨[0x78], rfl, rfl⟩⟩
  refine ⟨closed, ?_⟩
  intro members name body reads
  obtain ⟨rfl, rfl, rfl⟩ := JsonText.closed_object_unique reads closed
  decide

end JPipe
