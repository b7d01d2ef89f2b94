import JPipe.Field
import JPipe.JsonText
import Mathlib.Data.Fintype.Basic
import Mathlib.Tactic.NormNum

/-!
# The JSON encoder

`json.c` writes a record in three pieces: a prefix with the fields and the name
of the message, the escaped message, and a postfix. The tables are those of the
source; the value encoder is its loop, which keeps what it has written so far
and stops at the first byte whose escape does not fit.

What one byte becomes is stated once, as `escaped`; the loop is then a prefix of
the concatenation of these pieces, and the whole of it when the room is six
times the input.
-/

namespace JPipe

/-- `JP_JSON_ESCAPE_MUL`. -/
def jsonEscapeMul : Nat := 6

/-- `json_size_lut`: how many bytes the encoder writes for a byte. -/
def jsonSizeLut : List Nat := [
  6, 6, 6, 6, 6, 6, 6, 6, 2, 2, 2, 6, 2, 2, 6, 6, 6, 6, 6, 6, 6, 6, 6, 6, 6, 6, 6, 6, 6, 6, 6, 6,
  1, 1, 2, 1, 1, 1, 1, 1, 1, 1, 1, 1, 1, 1, 1, 1, 1, 1, 1, 1, 1, 1, 1, 1, 1, 1, 1, 1, 1, 1, 1, 1,
  1, 1, 1, 1, 1, 1, 1, 1, 1, 1, 1, 1, 1, 1, 1, 1, 1, 1, 1, 1, 1, 1, 1, 1, 1, 1, 1, 1, 2, 1, 1, 1,
  1, 1, 1, 1, 1, 1, 1, 1, 1, 1, 1, 1, 1, 1, 1, 1, 1, 1, 1, 1, 1, 1, 1, 1, 1, 1, 1, 1, 1, 1, 1, 6,
  1, 1, 1, 1, 1, 1, 1, 1, 1, 1, 1, 1, 1, 1, 1, 1, 1, 1, 1, 1, 1, 1, 1, 1, 1, 1, 1, 1, 1, 1, 1, 1,
  1, 1, 1, 1, 1, 1, 1, 1, 1, 1, 1, 1, 1, 1, 1, 1, 1, 1, 1, 1, 1, 1, 1, 1, 1, 1, 1, 1, 1, 1, 1, 1,
  1, 1, 1, 1, 1, 1, 1, 1, 1, 1, 1, 1, 1, 1, 1, 1, 1, 1, 1, 1, 1, 1, 1, 1, 1, 1, 1, 1, 1, 1, 1, 1,
  1, 1, 1, 1, 1, 1, 1, 1, 1, 1, 1, 1, 1, 1, 1, 1, 1, 1, 1, 1, 1, 1, 1, 1, 1, 1, 1, 1, 1, 1, 1, 1]

/-- `json_short_lookup`; the entries the source leaves out are zero. -/
def jsonShortLookup (ch : Byte) : Byte :=
  if ch = 0x0a then 0x6e
  else if ch = 0x0d then 0x72
  else if ch = 0x09 then 0x74
  else if ch = 0x08 then 0x62
  else if ch = 0x0c then 0x66
  else if ch = 0x22 then 0x22
  else if ch = 0x5c then 0x5c
  else 0

/-- `hex_chars`. -/
def hexChars : List Byte := [
  0x30, 0x31, 0x32, 0x33, 0x34, 0x35, 0x36, 0x37, 0x38, 0x39, 0x61, 0x62, 0x63, 0x64, 0x65, 0x66]

/-- `json_size_lut[ch]`. -/
def escLen (ch : Byte) : Nat := jsonSizeLut.getD ch.toNat 0

/-- The bytes the encoder's three branches write for one byte. -/
def escaped (ch : Byte) : List Byte :=
  if escLen ch = 1 then [ch]
  else if escLen ch = 2 then [0x5c, jsonShortLookup ch]
  else [0x5c, 0x75, 0x30, 0x30, hexChars.getD (ch >>> 4).toNat 0, hexChars.getD (ch &&& 0x0f).toNat 0]

/-- The loop of `jp_json_value_encoder`, over the bytes still to read and the
bytes written so far. -/
def valueEncoderLoop (dstLen : Nat) : List Byte → List Byte → List Byte
  | [], dst => dst
  | ch :: rest, dst =>
    if dst.length + escLen ch > dstLen then dst
    else valueEncoderLoop dstLen rest (dst ++ escaped ch)

/-- `jp_json_value_encoder`: the bytes it leaves in `dst`, whose number it returns. -/
def jpJsonValueEncoder (src : List Byte) (dstLen : Nat) : List Byte :=
  valueEncoderLoop dstLen src []

/-- `json_number_state_t`. -/
inductive JsonNumberState where
  | start
  | minus
  | zero
  | digit
  | dot
  | fraction
  | exp
  | expSign
  | expDigit
deriving DecidableEq, Repr

/-- `ch >= '0' && ch <= '9'`. -/
def isDigit (ch : Byte) : Bool := 0x30 ≤ ch && ch ≤ 0x39

/-- One turn of the loop of `is_json_numeric_literal`; no state is its `return false`. -/
def numberStep (state : JsonNumberState) (ch : Byte) : Option JsonNumberState :=
  match state with
  | .start =>
    if ch = 0x2d then some .minus
    else if ch = 0x30 then some .zero
    else if isDigit ch then some .digit
    else none
  | .minus =>
    if ch = 0x30 then some .zero
    else if isDigit ch then some .digit
    else none
  | .zero =>
    if ch = 0x2e then some .dot
    else if ch = 0x65 ∨ ch = 0x45 then some .exp
    else none
  | .digit =>
    if isDigit ch then some .digit
    else if ch = 0x2e then some .dot
    else if ch = 0x65 ∨ ch = 0x45 then some .exp
    else none
  | .dot => if isDigit ch then some .fraction else none
  | .fraction =>
    if isDigit ch then some .fraction
    else if ch = 0x65 ∨ ch = 0x45 then some .exp
    else none
  | .exp =>
    if ch = 0x2b ∨ ch = 0x2d then some .expSign
    else if isDigit ch then some .expDigit
    else none
  | .expSign => if isDigit ch then some .expDigit else none
  | .expDigit => if isDigit ch then some .expDigit else none

/-- The state after the whole text, unless the loop returned early. -/
def numberRun : JsonNumberState → List Byte → Option JsonNumberState
  | state, [] => some state
  | state, ch :: rest => (numberStep state ch).bind (fun next => numberRun next rest)

/-- The final test of `is_json_numeric_literal`. -/
def numberAccepts : JsonNumberState → Bool
  | .zero | .digit | .fraction | .expDigit => true
  | _ => false

/-- `is_json_numeric_literal`. -/
def isJsonNumericLiteral (text : List Byte) : Bool :=
  match numberRun .start text with
  | none => false
  | some state => numberAccepts state

/-- `is_json_string_literal`: whether a value is written between quotation marks. -/
def isJsonStringLiteral : List Byte → Bool
  | [] => true
  | ch :: rest =>
    let text := ch :: rest
    if ch = 0x74 ∧ text.length = 4 then text != [0x74, 0x72, 0x75, 0x65]
    else if ch = 0x66 ∧ text.length = 5 then text != [0x66, 0x61, 0x6c, 0x73, 0x65]
    else if ch = 0x6e ∧ text.length = 4 then text != [0x6e, 0x75, 0x6c, 0x6c]
    else if ch = 0x2d ∨ isDigit ch then !isJsonNumericLiteral text
    else true

/-- The name of the message member, `"msg":`, as the source spells it. -/
def msgKey : List Byte := [0x22, 0x6d, 0x73, 0x67, 0x22, 0x3a]

/-- One turn of the field loop of `jp_json_prefix_encoder`. -/
def encodeField (field : Field) : List Byte :=
  let mark : List Byte := if isJsonStringLiteral field.val then [0x22] else []
  [0x22] ++ field.key ++ [0x22, 0x3a] ++ mark ++
    jpJsonValueEncoder field.val (field.val.length * 6) ++ mark ++ [0x2c]

/-- The size `jp_json_prefix_encoder` allocates for its result. -/
def prefixSize (fieldSet : FieldSet) : Nat :=
  64 + (fieldSet.fields.map fun field =>
    field.key.length + field.val.length * jsonEscapeMul + 6).sum

/-- `jp_json_prefix_encoder`: the bytes before the terminating NUL. -/
def jpJsonPrefixEncoder (fieldSet : FieldSet) : List Byte :=
  [0x7b] ++ fieldSet.fields.flatMap encodeField ++ msgKey

/-- `jp_json_postfix_encoder`. -/
def jpJsonPostfixEncoder (_fieldSet : FieldSet) : List Byte := [0x22, 0x7d, 0x0a]

/-- A fact about every byte follows from its 256 instances. -/
theorem forall_byte (claim : Byte → Prop) (instances : ∀ code : Fin 256, claim (UInt8.ofNat code))
    (ch : Byte) : claim ch := by
  have same : UInt8.ofNat ch.toNat = ch := UInt8.ofNat_toNat
  exact same ▸ instances ⟨ch.toNat, ch.toNat_lt⟩

/-- The size table in closed form: two bytes for the characters with a short
escape, six for the other control characters and DEL, one for all others. -/
def escapeSize (ch : Byte) : Nat :=
  if ch ∈ ([0x08, 0x09, 0x0a, 0x0c, 0x0d, 0x22, 0x5c] : List Byte) then 2
  else if ch < 0x20 ∨ ch = 0x7f then 6
  else 1

/-- The table is its closed form. -/
theorem esc_len_eq (ch : Byte) : escLen ch = escapeSize ch :=
  forall_byte (fun ch => escLen ch = escapeSize ch) (by decide +kernel) ch

/-- The table counts exactly the bytes the branches write. -/
theorem escaped_length (ch : Byte) : (escaped ch).length = escLen ch := by
  have sizes : escLen ch = 1 ∨ escLen ch = 2 ∨ escLen ch = 6 := by
    rw [esc_len_eq, escapeSize]
    split_ifs <;> simp
  rcases sizes with size | size | size <;> simp [escaped, size]

/-- No byte takes more than `JP_JSON_ESCAPE_MUL` bytes. -/
theorem esc_len_bound (ch : Byte) : escLen ch ≤ jsonEscapeMul := by
  rw [esc_len_eq, escapeSize]
  split_ifs <;> decide

/-- A byte written as it is may stand in a string. -/
theorem plain_byte (ch : Byte) (single : escLen ch = 1) :
    ch ≠ JsonText.escape ∧ ¬ (ch = JsonText.quotationMark ∨ ch < 0x20) := by
  rw [esc_len_eq] at single
  exact forall_byte (fun ch => escapeSize ch = 1 → ch ≠ JsonText.escape ∧
    ¬ (ch = JsonText.quotationMark ∨ ch < 0x20)) (by decide +kernel) ch single

/-- The second byte of a two-byte escape stands for the byte escaped. -/
theorem short_byte (ch : Byte) (double : escLen ch = 2) :
    jsonShortLookup ch ≠ 0x75 ∧ JsonText.shortEscape (jsonShortLookup ch) = some ch := by
  rw [esc_len_eq] at double
  exact forall_byte (fun ch => escapeSize ch = 2 → jsonShortLookup ch ≠ 0x75 ∧
    JsonText.shortEscape (jsonShortLookup ch) = some ch) (by decide +kernel) ch double

/-- The four digits of a longer escape name the byte escaped, an ASCII one. -/
theorem unit_byte (ch : Byte) (single : escLen ch ≠ 1) (double : escLen ch ≠ 2) :
    JsonText.codeUnit 0x30 0x30 (hexChars.getD (ch >>> 4).toNat 0)
      (hexChars.getD (ch &&& 0x0f).toNat 0) = some ch.toNat ∧ ch.toNat < 0x80 := by
  rw [esc_len_eq] at single double
  exact forall_byte (fun ch => escapeSize ch ≠ 1 → escapeSize ch ≠ 2 →
    JsonText.codeUnit 0x30 0x30 (hexChars.getD (ch >>> 4).toNat 0)
      (hexChars.getD (ch &&& 0x0f).toNat 0) = some ch.toNat ∧ ch.toNat < 0x80)
    (by decide +kernel) ch single double

/-- The element of a JSON string that the encoder writes for a byte. -/
def elementOf (ch : Byte) : JsonText.Element :=
  if escLen ch = 1 ∨ escLen ch = 2 then .octet ch else .unit ch.toNat

/-- Reading back one escaped byte gives its element and goes on after it. -/
theorem elements_escaped (ch : Byte) (rest : List Byte) :
    JsonText.elements (escaped ch ++ rest) =
      (JsonText.elements rest).map (elementOf ch :: ·) := by
  by_cases single : escLen ch = 1
  · obtain ⟨notEscape, admitted⟩ := plain_byte ch single
    simp only [escaped, single, ↓reduceIte, List.singleton_append, elementOf, true_or]
    rw [JsonText.elements.eq_def]
    simp [notEscape, admitted]
  · by_cases double : escLen ch = 2
    · obtain ⟨notUnit, short⟩ := short_byte ch double
      simp only [escaped, double, ↓reduceIte, elementOf, or_true]
      rw [JsonText.elements.eq_def]
      simp [JsonText.escape, notUnit, short]
    · obtain ⟨named, _⟩ := unit_byte ch single double
      simp only [escaped, single, double, ↓reduceIte, List.cons_append, List.nil_append, elementOf,
        or_self]
      rw [JsonText.elements.eq_def]
      simp only [JsonText.escape, ↓reduceIte, named, Option.bind_some]

/-- An element the encoder writes stands for the byte it was written for. -/
theorem decode_element (ch : Byte) (rest : List JsonText.Element) :
    JsonText.decode (elementOf ch :: rest) = ch :: JsonText.decode rest := by
  by_cases plain : escLen ch = 1 ∨ escLen ch = 2
  · simp [elementOf, plain, JsonText.decode, JsonText.decodeAfter, JsonText.unpaired]
  · obtain ⟨single, double⟩ := not_or.mp plain
    have ascii : ch.toNat < 0x80 := (unit_byte ch single double).2
    have unpairable : ¬ (0xd800 ≤ ch.toNat ∧ ch.toNat < 0xdc00) := by omega
    simp [elementOf, plain, JsonText.decode, JsonText.decodeAfter, JsonText.unpaired, unpairable,
      JsonText.utf8, ascii]

/-- Escaping is inverted by reading the result as the body of a JSON string. -/
theorem unescape_escaped (text : List Byte) :
    JsonText.unescape (text.flatMap escaped) = some text := by
  have read : JsonText.elements (text.flatMap escaped) = some (text.map elementOf) := by
    induction text with
    | nil => rfl
    | cons ch rest ih => rw [List.flatMap_cons, elements_escaped, ih, Option.map_some, List.map_cons]
  have meant : JsonText.decode (text.map elementOf) = text := by
    clear read
    induction text with
    | nil => rfl
    | cons ch rest ih => rw [List.map_cons, decode_element, ih]
  rw [JsonText.unescape, read, Option.map_some, meant]

/-- The escaped text has at most six bytes for each of its bytes. -/
theorem escaped_text_bound (text : List Byte) :
    (text.flatMap escaped).length ≤ text.length * jsonEscapeMul := by
  induction text with
  | nil => simp
  | cons ch rest ih =>
    have one : escLen ch ≤ jsonEscapeMul := esc_len_bound ch
    rw [List.flatMap_cons, List.length_append, escaped_length, List.length_cons, Nat.add_mul]
    omega

/-- With room for everything that is left, the loop escapes everything. -/
theorem value_encoder_loop_roomy (dstLen : Nat) (src dst : List Byte)
    (room : dst.length + (src.flatMap escaped).length ≤ dstLen) :
    valueEncoderLoop dstLen src dst = dst ++ src.flatMap escaped := by
  induction src generalizing dst with
  | nil => simp [valueEncoderLoop]
  | cons ch rest ih =>
    simp only [List.flatMap_cons, List.length_append, escaped_length] at room
    have fits : ¬ dst.length + escLen ch > dstLen := by omega
    rw [valueEncoderLoop, if_neg fits, ih, List.flatMap_cons, List.append_assoc]
    rw [List.length_append, escaped_length]
    omega

/-- Six bytes of room for each byte of the source are enough for all of it. -/
theorem value_encoder_roomy (src : List Byte) (dstLen : Nat)
    (room : src.length * jsonEscapeMul ≤ dstLen) :
    jpJsonValueEncoder src dstLen = src.flatMap escaped := by
  have bound := escaped_text_bound src
  rw [jpJsonValueEncoder, value_encoder_loop_roomy dstLen src []]
  · rfl
  · simp only [List.length_nil]
    omega

/-- A source of so many bytes is encoded whole in six times the room. -/
theorem value_encoder_whole {src : List Byte} {count : Nat} (short : src.length ≤ count) :
    jpJsonValueEncoder src (count * jsonEscapeMul) = src.flatMap escaped := by
  apply value_encoder_roomy
  exact Nat.mul_le_mul_right jsonEscapeMul short

end JPipe
