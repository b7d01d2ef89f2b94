import JPipe.Region
import Mathlib.Data.List.Basic
import Mathlib.Data.UInt

/-!
# Formatted text

The conversions of `printf` for strings and decimal numbers, and `snprintf` into a
region at a cursor: with a terminating NUL, cut off where the region ends, and with the
length of the whole text for an answer. A program that adds the answers up moves its
cursor behind the text only as long as there was room; then the texts stand one behind
the other. Where the cursor is past the end there is no result.
-/

namespace Printf

abbrev Byte := UInt8

/-- A C string: its bytes before the terminating NUL. -/
structure Text where
  bytes : List Byte
  plain : 0 ∉ bytes

/-- The bytes of a text of the source. -/
def ascii (text : String) : List Byte := text.toList.map fun char => UInt8.ofNat char.toNat

/-- `%.ns`. -/
def clip (precision : Nat) (text : List Byte) : List Byte := text.take precision

/-- `%ns`. -/
def pad (width : Nat) (text : List Byte) : List Byte :=
  List.replicate (width - text.length) 0x20 ++ text

/-- The decimal digits of a number. -/
def digits (number : Nat) : List Byte :=
  (Nat.toDigits 10 number).map fun char => UInt8.ofNat char.toNat

/-- `%d`. -/
def decimal (number : Int) : List Byte :=
  if number < 0 then 0x2d :: digits number.natAbs else digits number.natAbs

/-- A field is as wide as asked for, or as its text. -/
theorem pad_length (width : Nat) (text : List Byte) :
    (pad width text).length = max width text.length := by
  rw [pad, List.length_append, List.length_replicate]
  omega

/-- A clipped text is no longer than its precision. -/
theorem clip_length (precision : Nat) (text : List Byte) :
    (clip precision text).length ≤ precision := by
  rw [clip, List.length_take]
  omega

/-- A decimal `int` has at most eleven characters. -/
theorem decimal_length (number : Int32) : (decimal number.toInt).length ≤ 11 := by
  have below := Int32.toInt_lt number
  have above := Int32.le_toInt number
  have ten : (digits number.toInt.natAbs).length ≤ 10 := by
    rw [digits, List.length_map, Nat.length_toDigits_le_iff (by decide) (by decide)]
    omega
  rw [decimal]
  split
  · rw [List.length_cons]
    omega
  · omega

/-- A text of the source is as long as its characters. -/
theorem ascii_length (chars : List Char) : (ascii (String.ofList chars)).length = chars.length := by
  rw [ascii, String.toList_ofList, List.length_map]

/-- A text of the source in printable characters is a C string. -/
theorem ascii_plain {chars : List Char}
    (printable : (chars.all fun char => 32 ≤ char.toNat && char.toNat ≤ 126) = true) :
    0 ∉ ascii (String.ofList chars) := by
  intro member
  rw [ascii, String.toList_ofList] at member
  obtain ⟨char, present, zero⟩ := List.mem_map.mp member
  have bounds := List.all_eq_true.mp printable char present
  simp only [Bool.and_eq_true, decide_eq_true_eq] at bounds
  have back : (UInt8.ofNat char.toNat).toNat = char.toNat :=
    UInt8.toNat_ofNat_of_lt (by
      change char.toNat < 256
      omega)
  rw [zero, UInt8.toNat_zero] at back
  omega

/-- No digit is NUL. -/
theorem decimal_plain (number : Int) : 0 ∉ decimal number := by
  have plain (value : Nat) : 0 ∉ digits value := by
    intro member
    obtain ⟨char, present, zero⟩ := List.mem_map.mp member
    have digit := Nat.isDigit_of_mem_toDigits (by decide) (by decide) present
    simp only [Char.isDigit, Bool.and_eq_true, decide_eq_true_eq] at digit
    have bounds : 48 ≤ char.toNat ∧ char.toNat ≤ 57 := digit
    have back : (UInt8.ofNat char.toNat).toNat = char.toNat :=
      UInt8.toNat_ofNat_of_lt (by
        change char.toNat < 256
        omega)
    rw [zero, UInt8.toNat_zero] at back
    omega
  rw [decimal]
  split
  · intro member
    rcases List.mem_cons.mp member with wrong | rest
    · exact absurd wrong (by decide)
    · exact plain _ rest
  · exact plain _

/-- Clipping leaves a C string. -/
theorem clip_plain {text : List Byte} (plain : 0 ∉ text) (precision : Nat) :
    0 ∉ clip precision text :=
  fun member => plain (List.mem_of_mem_take member)

/-- What stands before the first NUL. -/
def upToNul (cells : List Byte) : List Byte := cells.takeWhile (· ≠ 0)

section Print

variable {size : Nat}

/-- A text held with its NUL is what stands before the first one. -/
theorem up_to_nul_held {text : List Byte} {region : Region Byte size} (plain : 0 ∉ text)
    (holds : region.Holds (text ++ [0])) : upToNul region.cells = text := by
  obtain ⟨others, cells⟩ := holds
  have kept : ∀ byte ∈ text, decide (byte ≠ 0) = true := by
    intro byte member
    exact decide_eq_true fun zero => plain (zero ▸ member)
  rw [upToNul, ← cells, List.append_assoc, List.takeWhile_append_of_pos kept, List.singleton_append,
    List.takeWhile_cons_of_neg (by simp), List.append_nil]

/-- `offset += snprintf(row + offset, size - offset, …)`. -/
def snprintf (text : List Byte) (row : Region.Cursor Byte size) :
    Option (Region.Cursor Byte size) :=
  (Region.distance size row.position).bind fun room =>
    if room = 0 then some { row with position := row.position + text.length }
    else
      (row.region.write row.position (text.take (room - 1) ++ [0])).map fun region =>
        { region, position := row.position + text.length }

/-- With room for the text and its NUL the text is added. -/
theorem snprintf_behind {text held : List Byte} {row : Region.Cursor Byte size}
    (behind : row.Behind held) (room : held.length + text.length < size) :
    ∃ next, snprintf text row = some next ∧ next.Behind (held ++ text) := by
  obtain ⟨region, written, holds⟩ := Region.write_holds behind.holds (text ++ [0]) (by
    rw [List.length_append, List.length_singleton]
    omega)
  have left : Region.distance size row.position = some (size - held.length) := by
    rw [behind.position]
    exact Region.distance_of_le (by omega)
  have whole : text.take (size - held.length - 1) = text := List.take_of_length_le (by omega)
  refine ⟨{ region, position := row.position + text.length }, ?_, ?_, ?_⟩
  · rw [snprintf, left, Option.bind_some, if_neg (by omega), whole, behind.position, written]
    rfl
  · rw [← List.append_assoc] at holds
    exact (List.prefix_append _ [0]).trans holds
  · change row.position + text.length = (held ++ text).length
    rw [behind.position, List.length_append]

/-- A piece that is only printed if there is one. -/
def snprintfSome : Option (List Byte) → Region.Cursor Byte size →
    Option (Region.Cursor Byte size)
  | some text, row => snprintf text row
  | none, row => some row

/-- A piece that is only printed if there is one is added behind what the row holds, given
room for the longest text it can be. -/
theorem snprintf_some_behind {piece : Option (List Byte)} {held : List Byte} {bound : Nat}
    {row : Region.Cursor Byte size} (behind : row.Behind held)
    (short : ∀ text, piece = some text → text.length ≤ bound) (room : held.length + bound < size) :
    ∃ next, snprintfSome piece row = some next ∧ next.Behind (held ++ piece.getD []) := by
  cases piece with
  | none => exact ⟨row, rfl, by simpa using behind⟩
  | some text =>
    have fits := short text rfl
    exact snprintf_behind behind (by omega)

end Print

end Printf
