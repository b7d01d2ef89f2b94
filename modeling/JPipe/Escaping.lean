import JPipe.Json

/-!
# What the value encoder writes

`escaping` is the escaping of a byte in a JSON string by the rules of the format:
the two-character escapes it has, six-character escapes for the other control
characters and for DEL, and every other byte as it is. The three tables of the
source agree with it on every byte. The encoder then writes the escaping of the
longest part of its source that fits, whole escapes only, from which the part is
read back.
-/

namespace JsonText

/-- The lower-case hexadecimal digit of a value below sixteen. -/
def lowerHex (value : Nat) : Byte :=
  if value < 10 then UInt8.ofNat (0x30 + value) else UInt8.ofNat (0x61 + (value - 10))

/-- The character that names a byte in its two-character escape. The solidus has
one in the grammar too but needs none. -/
def escapeName (byte : Byte) : Option Byte :=
  [((0x22 : Byte), (0x22 : Byte)), (0x5c, 0x5c), (0x08, 0x62), (0x0c, 0x66), (0x0a, 0x6e),
    (0x0d, 0x72), (0x09, 0x74)].lookup byte

/-- The escaping of one byte. -/
def escaping (byte : Byte) : List Byte :=
  match escapeName byte with
  | some name => [escape, name]
  | none =>
    if byte < 0x20 ∨ byte = 0x7f then
      [escape, 0x75, 0x30, 0x30, lowerHex (byte.toNat / 16), lowerHex (byte.toNat % 16)]
    else [byte]

/-- The first `taken` bytes of a source are its longest part whose escaping has
room, and `written` is that escaping. -/
structure LongestEscaping (src : List Byte) (room taken : Nat) (written : List Byte) : Prop where
  within : taken ≤ src.length
  text : written = (src.take taken).flatMap escaping
  fits : written.length ≤ room
  longest : ∀ more ≤ src.length, ((src.take more).flatMap escaping).length ≤ room → more ≤ taken

end JsonText

namespace JPipe

/-- The size, short-escape and digit tables together are the escaping of JSON. -/
theorem escaped_eq (ch : Byte) : escaped ch = JsonText.escaping ch :=
  forall_byte (fun ch => escaped ch = JsonText.escaping ch) (by decide +kernel) ch

/-- No escaped byte contains a control character. -/
theorem escaped_printable (ch : Byte) : ∀ byte ∈ escaped ch, ¬ byte < 0x20 ∧ byte ≠ 0x7f := by
  have printable : (escaped ch).all fun byte => ¬ byte < 0x20 ∧ byte ≠ 0x7f := by
    rw [escaped_eq]
    exact forall_byte (fun ch => (JsonText.escaping ch).all fun byte => ¬ byte < 0x20 ∧ byte ≠ 0x7f)
      (by decide +kernel) ch
  intro byte member
  exact of_decide_eq_true (List.all_eq_true.mp printable byte member)

/-- How many bytes of a source the encoder consumes when it has this much room. -/
def encodedCount : Nat → List Byte → Nat
  | _, [] => 0
  | room, ch :: rest => if escLen ch ≤ room then encodedCount (room - escLen ch) rest + 1 else 0

theorem encoded_count_le (room : Nat) (src : List Byte) : encodedCount room src ≤ src.length := by
  induction src generalizing room with
  | nil => simp [encodedCount]
  | cons ch rest ih =>
    rw [encodedCount]
    split_ifs with fits
    · simpa using ih (room - escLen ch)
    · exact Nat.zero_le _

/-- The loop appends the escaping of the bytes it consumes and nothing more. -/
theorem value_encoder_loop_eq (dstLen : Nat) (src dst : List Byte) (within : dst.length ≤ dstLen) :
    valueEncoderLoop dstLen src dst =
      dst ++ (src.take (encodedCount (dstLen - dst.length) src)).flatMap escaped := by
  induction src generalizing dst with
  | nil => simp [valueEncoderLoop]
  | cons ch rest ih =>
    rw [valueEncoderLoop, encodedCount]
    by_cases fits : escLen ch ≤ dstLen - dst.length
    · have admitted : ¬ dst.length + escLen ch > dstLen := by omega
      have grown : (dst ++ escaped ch).length = dst.length + escLen ch := by
        rw [List.length_append, escaped_length]
      have left : dstLen - (dst ++ escaped ch).length = dstLen - dst.length - escLen ch := by omega
      rw [if_neg admitted, if_pos fits, ih _ (by omega), left, List.take_succ_cons,
        List.flatMap_cons, List.append_assoc]
    · have refused : dst.length + escLen ch > dstLen := by omega
      rw [if_pos refused, if_neg fits]
      simp

/-- The bytes consumed have room for their escaping. -/
theorem encoded_count_fits (room : Nat) (src : List Byte) :
    ((src.take (encodedCount room src)).flatMap escaped).length ≤ room := by
  induction src generalizing room with
  | nil => simp
  | cons ch rest ih =>
    rw [encodedCount]
    split_ifs with fits
    · have others := ih (room - escLen ch)
      rw [List.take_succ_cons, List.flatMap_cons, List.length_append, escaped_length]
      omega
    · simp

/-- No longer part of the source has room for its escaping. -/
theorem encoded_count_longest (room : Nat) (src : List Byte) (more : Nat) (inside : more ≤ src.length)
    (fits : ((src.take more).flatMap escaped).length ≤ room) : more ≤ encodedCount room src := by
  induction src generalizing room more with
  | nil => exact Nat.le_trans inside (Nat.zero_le _)
  | cons ch rest ih =>
    cases more with
    | zero => exact Nat.zero_le _
    | succ fewer =>
      rw [List.take_succ_cons, List.flatMap_cons, List.length_append, escaped_length] at fits
      have first : escLen ch ≤ room := by omega
      rw [encodedCount, if_pos first]
      apply Nat.succ_le_succ
      apply ih
      · simpa using inside
      · omega

/-- What the encoder leaves in its buffer is the longest escaping that fits. -/
theorem value_encoder_longest (src : List Byte) (dstLen : Nat) :
    JsonText.LongestEscaping src dstLen (encodedCount dstLen src) (jpJsonValueEncoder src dstLen) := by
  have same : escaped = JsonText.escaping := funext escaped_eq
  have written : jpJsonValueEncoder src dstLen =
      (src.take (encodedCount dstLen src)).flatMap escaped :=
    value_encoder_loop_eq dstLen src [] (Nat.zero_le _)
  constructor
  · exact encoded_count_le dstLen src
  · rw [written, same]
  · rw [written]
    exact encoded_count_fits dstLen src
  · intro more inside fits
    rw [← same] at fits
    exact encoded_count_longest dstLen src more inside fits

/-- The value encoder writes at most its room and exactly the escaping of the
longest part of the source that fits, with no control character and no bare
quotation mark; reading it as a string body gives the part back, and room for six
bytes a byte makes the part the whole source. -/
theorem value_encoder_exact (src : List Byte) (dstLen : Nat) :
    ∃ taken, JsonText.LongestEscaping src dstLen taken (jpJsonValueEncoder src dstLen) ∧
      (∀ byte ∈ jpJsonValueEncoder src dstLen, ¬ byte < 0x20 ∧ byte ≠ 0x7f) ∧
      JsonText.Guarded (jpJsonValueEncoder src dstLen) ∧
      JsonText.unescape (jpJsonValueEncoder src dstLen) = some (src.take taken) ∧
      (6 * src.length ≤ dstLen → taken = src.length) := by
  have exact := value_encoder_longest src dstLen
  have same : escaped = JsonText.escaping := funext escaped_eq
  have text : jpJsonValueEncoder src dstLen =
      (src.take (encodedCount dstLen src)).flatMap escaped := by
    rw [exact.text, same]
  have readable : JsonText.unescape (jpJsonValueEncoder src dstLen) =
      some (src.take (encodedCount dstLen src)) := by
    rw [text]
    exact unescape_escaped _
  refine ⟨encodedCount dstLen src, exact, ?_, ?_, readable, ?_⟩
  · intro byte member
    rw [text] at member
    obtain ⟨ch, _, piece⟩ := List.mem_flatMap.mp member
    exact escaped_printable ch byte piece
  · apply JsonText.guarded_body
    simpa [JsonText.unescape] using congrArg Option.isSome readable
  · intro roomy
    have bound := escaped_text_bound src
    apply Nat.le_antisymm exact.within
    apply encoded_count_longest dstLen src src.length (Nat.le_refl _)
    rw [List.take_length]
    rw [jsonEscapeMul] at bound
    omega

end JPipe
