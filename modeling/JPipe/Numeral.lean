import Mathlib.Data.UInt
import Mathlib.Data.List.TakeWhile

/-!
# Decimal numerals and `strtoull`

A numeral is a text of optional white space, an optional sign and decimal
digits, and denotes an integer. `strtoull` with base ten converts the longest
numeral a text starts with to an unsigned 64-bit value: a magnitude above the
largest one is a range error, and a numeral with a minus sign is converted by
negation modulo 2^64, so that a small negative magnitude gives a large value and
a large one a small value.
-/

namespace Numeral

abbrev Byte := UInt8

/-- `isspace` in the C locale. -/
def isSpace (byte : Byte) : Bool := byte == 0x20 || (0x09 ≤ byte && byte ≤ 0x0d)

/-- A decimal digit. -/
def isDigit (byte : Byte) : Bool := 0x30 ≤ byte && byte ≤ 0x39

/-- The number some digits name. -/
def magnitude (digits : List Byte) : Nat :=
  digits.foldl (fun value digit => value * 10 + (digit.toNat - 0x30)) 0

/-- `ULLONG_MAX` of 64 bits. -/
def ullongMax : Nat := 2 ^ 64 - 1

/-- What `strtoull` answers: the value, how many bytes it converted, and whether
it set `errno` to `ERANGE`. -/
structure Conversion where
  value : Nat
  consumed : Nat
  range : Bool
deriving DecidableEq, Repr

/-- Whether there is a minus sign, and what is left after the optional sign. -/
def readSign : List Byte → Bool × List Byte
  | [] => (false, [])
  | byte :: rest =>
    if byte = 0x2d then (true, rest) else if byte = 0x2b then (false, rest) else (false, byte :: rest)

/-- `strtoull` with base ten. A text that starts with no numeral is not converted. -/
def strtoull (text : List Byte) : Conversion :=
  let (negative, unsigned) := readSign (text.dropWhile isSpace)
  let digits := unsigned.takeWhile isDigit
  let consumed := text.length - (unsigned.dropWhile isDigit).length
  if digits = [] then { value := 0, consumed := 0, range := false }
  else if magnitude digits > ullongMax then { value := ullongMax, consumed, range := true }
  else if negative then { value := (2 ^ 64 - magnitude digits) % 2 ^ 64, consumed, range := false }
  else { value := magnitude digits, consumed, range := false }

/-- The integer a numeral denotes. -/
inductive Denotes : List Byte → Int → Prop where
  | positive (blanks sign digits : List Byte) (blank : ∀ byte ∈ blanks, isSpace byte = true)
      (signed : sign = [] ∨ sign = [0x2b]) (some : digits ≠ [])
      (decimal : ∀ byte ∈ digits, isDigit byte = true) :
      Denotes (blanks ++ sign ++ digits) (magnitude digits)
  | negative (blanks digits : List Byte) (blank : ∀ byte ∈ blanks, isSpace byte = true)
      (some : digits ≠ []) (decimal : ∀ byte ∈ digits, isDigit byte = true) :
      Denotes (blanks ++ [0x2d] ++ digits) (-magnitude digits)

/-- The conversion of a numeral that denotes this number. -/
def convert (number : Int) (consumed : Nat) : Conversion :=
  if number.natAbs > ullongMax then { value := ullongMax, consumed, range := true }
  else { value := (number % 2 ^ 64).toNat, consumed, range := false }

/-- Bytes of a kind before a byte of another are what is taken and dropped. -/
theorem span_exact {kind : Byte → Bool} {body rest : List Byte}
    (inside : ∀ byte ∈ body, kind byte = true) (boundary : ∀ byte ∈ rest.head?, kind byte = false) :
    (body ++ rest).takeWhile kind = body ∧ (body ++ rest).dropWhile kind = rest := by
  have none : rest.takeWhile kind = [] ∧ rest.dropWhile kind = rest := by
    cases rest with
    | nil => exact ⟨rfl, rfl⟩
    | cons byte others =>
      have stops : kind byte = false := boundary byte rfl
      simp [stops]
  rw [List.takeWhile_append_of_pos inside, List.dropWhile_append_of_pos inside, none.1, none.2,
    List.append_nil]
  exact ⟨rfl, rfl⟩

/-- A text with these digits after its blanks and its sign is converted by the sign. -/
theorem strtoull_parts {digits rest unsigned : List Byte} {negative : Bool}
    {text : List Byte} (signed : readSign (text.dropWhile isSpace) = (negative, unsigned))
    (split : unsigned = digits ++ rest) (some : digits ≠ [])
    (decimal : ∀ byte ∈ digits, isDigit byte = true)
    (ended : ∀ byte ∈ rest.head?, isDigit byte = false) :
    strtoull text = convert (if negative then -magnitude digits else magnitude digits)
      (text.length - rest.length) := by
  obtain ⟨taken, dropped⟩ := span_exact decimal ended
  rw [strtoull, signed]
  simp only [split, taken, dropped, if_neg some]
  have large : magnitude digits > ullongMax ↔
      (if negative then -(magnitude digits : Int) else magnitude digits).natAbs > ullongMax := by
    cases negative <;> simp
  by_cases range : magnitude digits > ullongMax
  · rw [if_pos range, convert, if_pos (large.mp range)]
  · rw [if_neg range, convert, if_neg (fun wrong => range (large.mpr wrong))]
    have bound : magnitude digits ≤ ullongMax := Nat.not_lt.mp range
    rw [ullongMax] at bound
    cases negative with
    | false =>
      simp only [Bool.false_eq_true, ↓reduceIte, Conversion.mk.injEq, and_true]
      omega
    | true =>
      simp only [↓reduceIte, Conversion.mk.injEq, and_true]
      omega

/-- A digit is no white space and no sign. -/
theorem digit_plain {byte : Byte} (digit : isDigit byte = true) :
    isSpace byte = false ∧ byte ≠ 0x2d ∧ byte ≠ 0x2b := by
  simp only [isDigit, isSpace, Bool.and_eq_true, decide_eq_true_eq, UInt8.le_iff_toNat_le,
    UInt8.reduceToNat, Bool.or_eq_false_iff, beq_eq_false_iff_ne, ne_eq, Bool.and_eq_false_iff,
    decide_eq_false_iff_not, ← UInt8.toNat_inj] at digit ⊢
  omega

/-- The sign and the digits read from a numeral that no digit follows. -/
theorem denotes_read {head : List Byte} {number : Int} (denotes : Denotes head number)
    (rest : List Byte) :
    ∃ negative digits, readSign ((head ++ rest).dropWhile isSpace) = (negative, digits ++ rest) ∧
      digits ≠ [] ∧ (∀ byte ∈ digits, isDigit byte = true) ∧
      number = if negative then -(magnitude digits : Int) else magnitude digits := by
  cases denotes with
  | positive blanks sign digits blank signed some decimal =>
    obtain ⟨first, others, isDigits⟩ := List.exists_cons_of_ne_nil some
    have plain := digit_plain (decimal first (isDigits ▸ List.mem_cons_self))
    have boundary : ∀ byte ∈ (sign ++ digits ++ rest).head?, isSpace byte = false := by
      cases signed with
      | inl none => simp [none, isDigits, plain.1]
      | inr plus => simp [plus, isSpace]
    refine ⟨false, digits, ?_, some, decimal, rfl⟩
    rw [List.append_assoc, List.append_assoc, ← List.append_assoc sign,
      (span_exact blank boundary).2]
    cases signed with
    | inl none => simp [none, isDigits, readSign, plain]
    | inr plus => simp [plus, readSign]
  | negative blanks digits blank some decimal =>
    have boundary : ∀ byte ∈ ([0x2d] ++ digits ++ rest).head?, isSpace byte = false := by
      simp [isSpace]
    refine ⟨true, digits, ?_, some, decimal, rfl⟩
    rw [List.append_assoc, List.append_assoc, ← List.append_assoc [0x2d],
      (span_exact blank boundary).2]
    simp [readSign]

/-- A numeral denotes one number only. -/
theorem denotes_unique {text : List Byte} {number other : Int} (denotes : Denotes text number)
    (also : Denotes text other) : number = other := by
  obtain ⟨negative, digits, read, _, _, value⟩ := denotes_read denotes []
  obtain ⟨otherSign, otherDigits, otherRead, _, _, otherValue⟩ := denotes_read also []
  obtain ⟨signs, texts⟩ := Prod.mk.inj (read.symm.trans otherRead)
  rw [value, otherValue, signs, List.append_cancel_right texts]

/-- A numeral that no digit follows is converted as a whole. -/
theorem strtoull_denotes {head : List Byte} {number : Int} (denotes : Denotes head number)
    {rest : List Byte} (ended : ∀ byte ∈ rest.head?, isDigit byte = false) :
    strtoull (head ++ rest) = convert number head.length := by
  obtain ⟨negative, digits, read, some, decimal, value⟩ := denotes_read denotes rest
  rw [strtoull_parts read rfl some decimal ended, value, List.length_append, Nat.add_sub_cancel]

/-- What is dropped ends before a byte of another kind. -/
theorem drop_boundary (kind : Byte → Bool) (text : List Byte) :
    ∀ byte ∈ (text.dropWhile kind).head?, kind byte = false := by
  induction text with
  | nil => simp
  | cons byte rest ih =>
    by_cases inside : kind byte = true
    · rwa [List.dropWhile_cons_of_pos inside]
    · rw [List.dropWhile_cons_of_neg inside]
      simpa using inside

/-- What is converted is a numeral, and no digit follows it. -/
theorem strtoull_converted {text : List Byte} (converted : (strtoull text).consumed ≠ 0) :
    ∃ head rest number, text = head ++ rest ∧ Denotes head number ∧
      ∀ byte ∈ rest.head?, isDigit byte = false := by
  have blank : ∀ byte ∈ text.takeWhile isSpace, isSpace byte = true :=
    fun byte member => List.mem_takeWhile_imp member
  have halves : text.takeWhile isSpace ++ text.dropWhile isSpace = text :=
    List.takeWhile_append_dropWhile
  obtain ⟨⟨minus, unsigned⟩, signing⟩ : ∃ signed, readSign (text.dropWhile isSpace) = signed :=
    ⟨_, rfl⟩
  have some : unsigned.takeWhile isDigit ≠ [] := by
    intro none
    simp [strtoull, signing, none] at converted
  have decimal : ∀ byte ∈ unsigned.takeWhile isDigit, isDigit byte = true :=
    fun byte member => List.mem_takeWhile_imp member
  have parts : unsigned.takeWhile isDigit ++ unsigned.dropWhile isDigit = unsigned :=
    List.takeWhile_append_dropWhile
  have ended := drop_boundary isDigit unsigned
  generalize text.takeWhile isSpace = blanks at blank halves
  generalize unsigned.takeWhile isDigit = digits at some decimal parts
  generalize unsigned.dropWhile isDigit = rest at parts ended
  have plus (sign : List Byte) (admitted : sign = [] ∨ sign = [0x2b])
      (split : text.dropWhile isSpace = sign ++ unsigned) :
      ∃ head rest number, text = head ++ rest ∧ Denotes head number ∧
        ∀ byte ∈ rest.head?, isDigit byte = false :=
    ⟨_, rest, _, by rw [← halves, split, ← parts]; simp,
      Denotes.positive blanks sign digits blank admitted some decimal, ended⟩
  cases body : text.dropWhile isSpace with
  | nil =>
    rw [body, readSign, Prod.mk.injEq] at signing
    exact plus [] (Or.inl rfl) (body.trans signing.2)
  | cons byte others =>
    rw [body, readSign] at signing
    split_ifs at signing with isMinus isPlus
    · refine ⟨_, rest, _, ?_, Denotes.negative blanks digits blank some decimal, ended⟩
      rw [← halves, body, isMinus, (Prod.mk.inj signing).2, ← parts]
      simp
    · exact plus [0x2b] (Or.inr rfl) (by rw [body, isPlus, (Prod.mk.inj signing).2]; rfl)
    · exact plus [] (Or.inl rfl) (by rw [body, (Prod.mk.inj signing).2]; rfl)

theorem convert_consumed (number : Int) (consumed : Nat) :
    (convert number consumed).consumed = consumed := by
  rw [convert]
  split <;> rfl

/-- A negative number so little above `-2^64` that it is converted to one of at
most `limit`. -/
def Wraps (limit : Nat) (number : Int) : Prop := -2 ^ 64 < number ∧ number ≤ (limit : Int) - 2 ^ 64

/-- A number that is converted to a positive value of at most `limit`. -/
theorem convert_small_iff (number : Int) (consumed limit : Nat) (small : limit < 2 ^ 64) :
    (convert number consumed).range = false ∧ 0 < (convert number consumed).value ∧
        (convert number consumed).value ≤ limit ↔
      1 ≤ number ∧ number ≤ limit ∨ Wraps limit number := by
  rw [convert, Wraps]
  by_cases large : number.natAbs > ullongMax
  · rw [if_pos large]
    rw [ullongMax] at large
    simp only [Bool.true_eq_false, false_and, false_iff]
    omega
  · rw [if_neg large]
    rw [ullongMax] at large
    simp only [true_and]
    omega

/-- The value a positive number of at most `limit` is converted to. -/
theorem convert_value {number : Int} (consumed : Nat) {limit : Nat} (small : limit < 2 ^ 64)
    (positive : 1 ≤ number) (bounded : number ≤ limit) :
    (convert number consumed).value = number.toNat := by
  have fits : ¬ number.natAbs > ullongMax := by
    rw [ullongMax]
    omega
  rw [convert, if_neg fits]
  simp only
  omega

/-- The texts a positive value of at most `limit` is read from with a given text
unread: a numeral and that text, the number being such a value or a negative one
that wraps to it. -/
theorem read_small_iff (text : List Byte) {unread : List Byte} {limit : Nat} (small : limit < 2 ^ 64)
    (ended : ∀ byte ∈ unread.head?, isDigit byte = false) :
    ((strtoull text).range = false ∧ (strtoull text).consumed ≠ 0 ∧
        text.drop (strtoull text).consumed = unread ∧
        0 < (strtoull text).value ∧ (strtoull text).value ≤ limit) ↔
      ∃ head number, text = head ++ unread ∧ Denotes head number ∧
        (1 ≤ number ∧ number ≤ limit ∨ Wraps limit number) := by
  constructor
  · intro ⟨range, converted, left, positive, bounded⟩
    obtain ⟨head, rest, number, split, denotes, stops⟩ := strtoull_converted converted
    have whole := strtoull_denotes denotes stops
    rw [split, whole] at range left positive bounded
    rw [convert_consumed, List.drop_left] at left
    exact ⟨head, number, left ▸ split, denotes,
      (convert_small_iff number head.length limit small).mp ⟨range, positive, bounded⟩⟩
  · intro ⟨head, number, split, denotes, fits⟩
    have whole := strtoull_denotes denotes ended
    obtain ⟨range, positive, bounded⟩ := (convert_small_iff number head.length limit small).mpr fits
    have nonempty : head ≠ [] := by
      intro empty
      obtain ⟨negative, digits, read, nonempty, _⟩ := denotes_read denotes []
      cases negative <;> simp [empty, readSign, nonempty] at read
    rw [split, whole, convert_consumed, List.drop_left]
    exact ⟨range, fun none => nonempty (List.length_eq_zero_iff.mp none), rfl, positive, bounded⟩

end Numeral
