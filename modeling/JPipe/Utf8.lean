import Mathlib.Data.List.Basic

/-!
# Cutting a UTF-8 text

A list of bytes is valid when it encodes a sequence of characters. Characters are
encoded apart from each other: what follows a valid text is valid exactly when both
together are, and a valid text may be cut exactly before a byte that starts a
character. A character of one byte, such as the newline, separates valid texts.
-/

namespace Utf8

/-- The bytes encode a sequence of characters. -/
def Valid (text : List UInt8) : Prop := text.toByteArray.IsValidUTF8

instance : DecidablePred Valid := fun text =>
  inferInstanceAs (Decidable text.toByteArray.IsValidUTF8)

/-- A valid text is the encoding of its characters. -/
theorem valid_iff (text : List UInt8) :
    Valid text ↔ ∃ chars : List Char, chars.flatMap String.utf8EncodeChar = text := by
  constructor
  · rintro ⟨chars, encoded⟩
    exact ⟨chars, (List.toByteArray_inj.mp encoded).symm⟩
  · rintro ⟨chars, rfl⟩
    exact ⟨chars, rfl⟩

theorem valid_nil : Valid [] := (valid_iff []).mpr ⟨[], rfl⟩

/-- One character is valid. -/
theorem valid_char (char : Char) : Valid (String.utf8EncodeChar char) :=
  Char.isValidUTF8_toByteArray_utf8EncodeChar

/-- Valid texts one after the other are valid. -/
theorem valid_append {front back : List UInt8} (one : Valid front) (other : Valid back) :
    Valid (front ++ back) := by
  rw [Valid, List.toByteArray_append]
  exact ByteArray.IsValidUTF8.append one other

/-- What follows a character is valid exactly when the whole is. -/
theorem valid_char_append_iff (char : Char) (back : List UInt8) :
    Valid (String.utf8EncodeChar char ++ back) ↔ Valid back := by
  rw [Valid, List.toByteArray_append, ← List.utf8Encode_singleton]
  exact ByteArray.isValidUTF8_utf8Encode_singleton_append_iff

/-- What follows a valid text is valid exactly when the whole is. -/
theorem valid_append_iff {front : List UInt8} (valid : Valid front) (back : List UInt8) :
    Valid (front ++ back) ↔ Valid back := by
  obtain ⟨chars, rfl⟩ := (valid_iff front).mp valid
  clear valid
  induction chars with
  | nil => rfl
  | cons char chars ih =>
    rw [List.flatMap_cons, List.append_assoc, valid_char_append_iff]
    exact ih

/-- The first byte of a valid text starts a character. -/
theorem first_starts {byte : UInt8} {rest : List UInt8} (valid : Valid (byte :: rest)) :
    byte.IsUTF8FirstByte := by
  have first := ByteArray.IsValidUTF8.isUTF8FirstByte_getElem_zero valid (by simp)
  simpa using first

/-- Inside of a character no byte starts one. -/
theorem inside_starts {char : Char} {front rest : List UInt8} {byte : UInt8}
    (encoded : String.utf8EncodeChar char = front ++ byte :: rest)
    (starts : byte.IsUTF8FirstByte) : front = [] := by
  have inside : front.length < (String.utf8EncodeChar char).length := by simp [encoded]
  have same : (String.utf8EncodeChar char)[front.length] = byte := by simp [encoded]
  rw [← same, UInt8.isUTF8FirstByte_getElem_utf8EncodeChar] at starts
  exact List.length_eq_zero_iff.mp starts

/-- A valid text may be cut exactly before a byte that starts a character. -/
theorem valid_front_iff {front rest : List UInt8} {byte : UInt8}
    (valid : Valid (front ++ byte :: rest)) : Valid front ↔ byte.IsUTF8FirstByte := by
  constructor
  · intro before
    exact first_starts ((valid_append_iff before _).mp valid)
  · intro starts
    obtain ⟨chars, encoded⟩ := (valid_iff _).mp valid
    clear valid
    induction chars generalizing front with
    | nil => simp at encoded
    | cons char chars ih =>
      rw [List.flatMap_cons] at encoded
      rcases List.append_eq_append_iff.mp encoded with
        ⟨later, rfl, following⟩ | ⟨part, split, following⟩
      · exact (valid_char_append_iff char later).mpr (ih following)
      · cases part with
        | nil =>
          rw [List.append_nil] at split
          exact split ▸ valid_char char
        | cons first part =>
          obtain ⟨rfl, _⟩ := List.cons.inj following
          rw [inside_starts split starts]
          exact valid_nil

/-- A valid text is valid on both sides of a character of one byte. -/
theorem valid_around {front rest : List UInt8} {char : Char} {byte : UInt8}
    (single : String.utf8EncodeChar char = [byte]) (valid : Valid (front ++ byte :: rest)) :
    Valid front ∧ Valid rest := by
  have alone : Valid [byte] := single ▸ valid_char char
  have before : Valid front := (valid_front_iff valid).mpr (first_starts alone)
  have after : Valid (byte :: rest) := (valid_append_iff before _).mp valid
  exact ⟨before, (valid_append_iff alone rest).mp after⟩

/-- A character of one byte any number of times. -/
theorem valid_replicate {char : Char} {byte : UInt8} (single : String.utf8EncodeChar char = [byte])
    (count : Nat) : Valid (List.replicate count byte) := by
  induction count with
  | zero => exact valid_nil
  | succ count ih =>
    rw [List.replicate_succ, ← List.singleton_append]
    exact valid_append (single ▸ valid_char char) ih

end Utf8
