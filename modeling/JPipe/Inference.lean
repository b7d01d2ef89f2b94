import JPipe.Json

/-!
# Type inference of field values

`is_json_numeric_literal` is an automaton over the bytes of a value, and
`is_json_string_literal` decides with it whether a value is quoted. What may
still follow in each state is a language of its own, given by the number grammar
alone. A byte takes the automaton from a state to a next one exactly when it
starts a text of that language whose rest is in the language of the next, and
the states that accept are those whose language has the empty text. Acceptance
is then the grammar, by induction on the text.
-/

namespace JsonText

/-- Any run of digits and then a text of another language. -/
def DigitsThen (after : List Byte → Prop) (text : List Byte) : Prop :=
  ∃ digits tail, text = digits ++ tail ∧ (∀ byte ∈ digits, Digit byte) ∧ after tail

/-- `exp` after its letter. -/
def Exponent (text : List Byte) : Prop :=
  ∃ sign digits, text = sign ++ digits ∧ (sign = [] ∨ sign = [0x2b] ∨ sign = [0x2d]) ∧ Digits digits

/-- `frac` after its point, with what the number has left. -/
def Fraction (text : List Byte) : Prop :=
  ∃ digits exp, text = digits ++ exp ∧ Digits digits ∧ Exp exp

/-- `[ frac ] [ exp ]`. -/
def Scale (text : List Byte) : Prop :=
  ∃ frac exp, text = frac ++ exp ∧ Frac frac ∧ Exp exp

/-- `int [ frac ] [ exp ]`. -/
def Magnitude (text : List Byte) : Prop :=
  ∃ int scale, text = int ++ scale ∧ Int int ∧ Scale scale

theorem digits_cons (byte : Byte) (rest : List Byte) :
    Digits (byte :: rest) ↔ Digit byte ∧ ∀ other ∈ rest, Digit other := by
  simp [Digits]

theorem digits_then_nil (after : List Byte → Prop) : DigitsThen after [] ↔ after [] := by
  constructor
  · rintro ⟨digits, tail, split, _, rest⟩
    obtain ⟨_, rfl⟩ := List.append_eq_nil_iff.mp split.symm
    exact rest
  · intro rest
    exact ⟨[], [], rfl, by simp, rest⟩

/-- The run of digits either takes the first byte or is empty. -/
theorem digits_then_cons (after : List Byte → Prop) (byte : Byte) (rest : List Byte) :
    DigitsThen after (byte :: rest) ↔ Digit byte ∧ DigitsThen after rest ∨ after (byte :: rest) := by
  constructor
  · rintro ⟨digits, tail, split, each, following⟩
    cases digits with
    | nil =>
      obtain rfl : byte :: rest = tail := split
      exact Or.inr following
    | cons first others =>
      obtain ⟨rfl, rfl⟩ := List.cons_eq_cons.mp split
      exact Or.inl ⟨each byte List.mem_cons_self, others, tail, rfl,
        fun other member => each other (List.mem_cons_of_mem byte member), following⟩
  · rintro (⟨digit, digits, tail, rfl, each, following⟩ | following)
    · exact ⟨byte :: digits, tail, rfl, List.forall_mem_cons.mpr ⟨digit, each⟩, following⟩
    · exact ⟨[], byte :: rest, rfl, by simp, following⟩

theorem exponent_cons (byte : Byte) (rest : List Byte) :
    Exponent (byte :: rest) ↔
      (byte = 0x2b ∨ byte = 0x2d) ∧ Digits rest ∨ Digit byte ∧ ∀ other ∈ rest, Digit other := by
  constructor
  · rintro ⟨sign, digits, split, isSign, all⟩
    rcases isSign with rfl | rfl | rfl
    · obtain rfl : byte :: rest = digits := split
      exact Or.inr ((digits_cons byte rest).mp all)
    · obtain ⟨rfl, rfl⟩ := List.cons_eq_cons.mp split
      exact Or.inl ⟨Or.inl rfl, all⟩
    · obtain ⟨rfl, rfl⟩ := List.cons_eq_cons.mp split
      exact Or.inl ⟨Or.inr rfl, all⟩
  · rintro (⟨isSign, all⟩ | all)
    · exact ⟨[byte], rest, rfl, by simpa using isSign, all⟩
    · exact ⟨[], byte :: rest, rfl, Or.inl rfl, (digits_cons byte rest).mpr all⟩

theorem exp_cons (byte : Byte) (rest : List Byte) :
    Exp (byte :: rest) ↔ (byte = 0x65 ∨ byte = 0x45) ∧ Exponent rest := by
  constructor
  · rintro (empty | ⟨letter, sign, digits, split, isLetter, isSign, all⟩)
    · cases empty
    · obtain ⟨rfl, rfl⟩ := List.cons_eq_cons.mp split
      exact ⟨isLetter, sign, digits, rfl, isSign, all⟩
  · rintro ⟨isLetter, sign, digits, rfl, isSign, all⟩
    exact Or.inr ⟨byte, sign, digits, rfl, isLetter, isSign, all⟩

theorem fraction_cons (byte : Byte) (rest : List Byte) :
    Fraction (byte :: rest) ↔ Digit byte ∧ DigitsThen Exp rest := by
  constructor
  · rintro ⟨digits, exp, split, all, isExp⟩
    cases digits with
    | nil => exact absurd rfl all.1
    | cons first others =>
      obtain ⟨rfl, rfl⟩ := List.cons_eq_cons.mp split
      obtain ⟨digit, each⟩ := (digits_cons byte others).mp all
      exact ⟨digit, others, exp, rfl, each, isExp⟩
  · rintro ⟨digit, digits, exp, rfl, each, isExp⟩
    exact ⟨byte :: digits, exp, rfl, (digits_cons byte digits).mpr ⟨digit, each⟩, isExp⟩

theorem scale_nil : Scale [] := ⟨[], [], rfl, Or.inl rfl, Or.inl rfl⟩

theorem scale_cons (byte : Byte) (rest : List Byte) :
    Scale (byte :: rest) ↔
      byte = 0x2e ∧ Fraction rest ∨ (byte = 0x65 ∨ byte = 0x45) ∧ Exponent rest := by
  constructor
  · rintro ⟨frac, exp, split, isFrac, isExp⟩
    rcases isFrac with rfl | ⟨digits, rfl, all⟩
    · obtain rfl : byte :: rest = exp := split
      exact Or.inr ((exp_cons byte rest).mp isExp)
    · obtain ⟨rfl, rfl⟩ := List.cons_eq_cons.mp split
      exact Or.inl ⟨rfl, digits, exp, rfl, all, isExp⟩
  · rintro (⟨rfl, digits, exp, rfl, all, isExp⟩ | following)
    · exact ⟨0x2e :: digits, exp, rfl, Or.inr ⟨digits, rfl, all⟩, isExp⟩
    · exact ⟨[], byte :: rest, rfl, Or.inl rfl, (exp_cons byte rest).mpr following⟩

theorem magnitude_cons (byte : Byte) (rest : List Byte) :
    Magnitude (byte :: rest) ↔
      byte = 0x30 ∧ Scale rest ∨ Digit byte ∧ byte ≠ 0x30 ∧ DigitsThen Scale rest := by
  constructor
  · rintro ⟨int, scale, split, isInt, isScale⟩
    rcases isInt with rfl | ⟨first, others, rfl, digit, nonzero, each⟩
    · obtain ⟨rfl, rfl⟩ := List.cons_eq_cons.mp split
      exact Or.inl ⟨rfl, isScale⟩
    · obtain ⟨rfl, rfl⟩ := List.cons_eq_cons.mp split
      exact Or.inr ⟨digit, nonzero, others, scale, rfl, each, isScale⟩
  · rintro (⟨rfl, isScale⟩ | ⟨digit, nonzero, digits, scale, rfl, each, isScale⟩)
    · exact ⟨[0x30], rest, rfl, Or.inl rfl, isScale⟩
    · exact ⟨byte :: digits, scale, rfl, Or.inr ⟨byte, digits, rfl, digit, nonzero, each⟩, isScale⟩

/-- A number is a magnitude, after a minus sign or not. -/
theorem number_magnitude (text : List Byte) :
    Number text ↔ Magnitude text ∨ ∃ rest, text = 0x2d :: rest ∧ Magnitude rest := by
  constructor
  · rintro ⟨minus, int, frac, exp, rfl, isMinus, isInt, isFrac, isExp⟩
    have magnitude : Magnitude (int ++ (frac ++ exp)) :=
      ⟨int, frac ++ exp, rfl, isInt, frac, exp, rfl, isFrac, isExp⟩
    rcases isMinus with rfl | rfl
    · exact Or.inl (by simpa using magnitude)
    · exact Or.inr ⟨int ++ (frac ++ exp), by simp, magnitude⟩
  · rintro (⟨int, _, rfl, isInt, frac, exp, rfl, isFrac, isExp⟩ |
      ⟨_, rfl, int, _, rfl, isInt, frac, exp, rfl, isFrac, isExp⟩)
    · exact ⟨[], int, frac, exp, by simp, Or.inl rfl, isInt, isFrac, isExp⟩
    · exact ⟨[0x2d], int, frac, exp, by simp, Or.inr rfl, isInt, isFrac, isExp⟩

theorem number_cons (byte : Byte) (rest : List Byte) :
    Number (byte :: rest) ↔ byte = 0x2d ∧ Magnitude rest ∨ Magnitude (byte :: rest) := by
  rw [number_magnitude, or_comm]
  apply or_congr_left
  constructor
  · rintro ⟨others, split, magnitude⟩
    obtain ⟨rfl, rfl⟩ := List.cons_eq_cons.mp split
    exact ⟨rfl, magnitude⟩
  · rintro ⟨rfl, magnitude⟩
    exact ⟨rest, rfl, magnitude⟩

/-- A magnitude has at least one byte. -/
theorem magnitude_nonempty : ¬ Magnitude [] := by
  rintro ⟨int, scale, split, isInt, _⟩
  obtain ⟨rfl, _⟩ := List.append_eq_nil_iff.mp split.symm
  rcases isInt with empty | ⟨_, _, empty, _⟩ <;> cases empty

end JsonText

namespace JPipe

open JsonText (Digit Digits DigitsThen Exp Exponent Fraction Scale Magnitude Number)

/-- The texts that complete a number from each state. -/
def Completes : JsonNumberState → List Byte → Prop
  | .start => Number
  | .minus => Magnitude
  | .zero => Scale
  | .digit => DigitsThen Scale
  | .dot => Fraction
  | .fraction => DigitsThen Exp
  | .exp => Exponent
  | .expSign => Digits
  | .expDigit => fun text => ∀ byte ∈ text, Digit byte

/-- The source's test for a digit is the grammar's. -/
theorem is_digit_iff (ch : Byte) : isDigit ch = true ↔ Digit ch := by
  simp [isDigit, Digit]

/-- The accepting states are those from which nothing need follow. -/
theorem completes_nil (state : JsonNumberState) :
    Completes state [] ↔ numberAccepts state = true := by
  cases state with
  | start =>
    simpa [Completes, numberAccepts, JsonText.number_magnitude] using JsonText.magnitude_nonempty
  | minus => simpa [Completes, numberAccepts] using JsonText.magnitude_nonempty
  | zero => simpa [Completes, numberAccepts] using JsonText.scale_nil
  | digit =>
    simpa [Completes, numberAccepts, JsonText.digits_then_nil] using JsonText.scale_nil
  | dot =>
    simp only [Completes, numberAccepts, Fraction, Bool.false_eq_true, iff_false]
    rintro ⟨digits, exp, split, all, _⟩
    exact all.1 (List.append_eq_nil_iff.mp split.symm).1
  | fraction => simp [Completes, numberAccepts, JsonText.digits_then_nil, Exp]
  | exp =>
    simp only [Completes, numberAccepts, Exponent, Bool.false_eq_true, iff_false]
    rintro ⟨sign, digits, split, _, all⟩
    exact all.1 (List.append_eq_nil_iff.mp split.symm).2
  | expSign => simp [Completes, numberAccepts, Digits]
  | expDigit => simp [Completes, numberAccepts]

/-- A sign, a point and an exponent letter are no digits. -/
theorem marks_not_digits (ch : Byte) (digit : Digit ch) :
    ch ≠ 0x2d ∧ ch ≠ 0x2b ∧ ch ≠ 0x2e ∧ ch ≠ 0x65 ∧ ch ≠ 0x45 := by
  refine ⟨?_, ?_, ?_, ?_, ?_⟩ <;> rintro rfl <;> exact absurd digit (by decide)

/-- One step of the automaton reads one byte of what completes a number. -/
theorem completes_cons (state : JsonNumberState) (ch : Byte) (rest : List Byte) :
    Completes state (ch :: rest) ↔
      ∃ next, numberStep state ch = some next ∧ Completes next rest := by
  have marks := marks_not_digits ch
  have signs : ch = 0x2b ∨ ch = 0x2d → ¬ Digit ch := by
    rintro (rfl | rfl) <;> decide
  cases state with
  | start =>
    simp only [Completes, numberStep, JsonText.number_cons, JsonText.magnitude_cons, is_digit_iff]
    split_ifs <;> simp_all
  | minus =>
    simp only [Completes, numberStep, JsonText.magnitude_cons, is_digit_iff]
    split_ifs <;> simp_all
  | zero =>
    simp only [Completes, numberStep, JsonText.scale_cons]
    split_ifs <;> simp_all
  | digit =>
    simp only [Completes, numberStep, JsonText.digits_then_cons, JsonText.scale_cons, is_digit_iff]
    split_ifs <;> simp_all
  | dot =>
    simp only [Completes, numberStep, JsonText.fraction_cons, is_digit_iff]
    split_ifs <;> simp_all
  | fraction =>
    simp only [Completes, numberStep, JsonText.digits_then_cons, JsonText.exp_cons, is_digit_iff]
    split_ifs <;> simp_all
  | exp =>
    simp only [Completes, numberStep, JsonText.exponent_cons, is_digit_iff]
    split_ifs <;> simp_all
  | expSign =>
    simp only [Completes, numberStep, JsonText.digits_cons, is_digit_iff]
    split_ifs <;> simp_all
  | expDigit =>
    simp only [Completes, numberStep, List.forall_mem_cons, is_digit_iff]
    split_ifs <;> simp_all

/-- From each state the automaton accepts exactly what completes a number. -/
theorem run_accepts_iff (state : JsonNumberState) (text : List Byte) :
    Completes state text ↔
      ∃ final, numberRun state text = some final ∧ numberAccepts final = true := by
  induction text generalizing state with
  | nil => simp [completes_nil, numberRun]
  | cons ch rest ih =>
    rw [completes_cons]
    cases stepped : numberStep state ch with
    | none => simp [numberRun, stepped]
    | some next => simp [numberRun, stepped, ih]

/-- `is_json_numeric_literal` accepts the number grammar and nothing else. -/
theorem numeric_literal_eq (text : List Byte) :
    isJsonNumericLiteral text = true ↔ Number text := by
  change _ ↔ Completes .start text
  rw [run_accepts_iff, isJsonNumericLiteral]
  cases completed : numberRun .start text <;> simp

/-- A number starts with a minus sign or a digit. -/
theorem number_starts (ch : Byte) (rest : List Byte) (number : Number (ch :: rest)) :
    ch = 0x2d ∨ isDigit ch = true := by
  rw [JsonText.number_cons, JsonText.magnitude_cons] at number
  rcases number with ⟨minus, _⟩ | ⟨rfl, _⟩ | ⟨digit, _⟩
  · exact Or.inl minus
  · exact Or.inr rfl
  · exact Or.inr ((is_digit_iff ch).mpr digit)

/-- The unquoted values: the numbers and the three literal names. -/
def BareValue (val : List Byte) : Prop :=
  Number val ∨ val = [0x74, 0x72, 0x75, 0x65] ∨ val = [0x66, 0x61, 0x6c, 0x73, 0x65] ∨
    val = [0x6e, 0x75, 0x6c, 0x6c]

/-- `is_json_string_literal` refuses the unquoted values and nothing else. -/
theorem string_literal_eq (val : List Byte) :
    isJsonStringLiteral val = false ↔ BareValue val := by
  cases val with
  | nil =>
    have none : ¬ Number [] := fun number =>
      absurd ((numeric_literal_eq []).mpr number) (by decide)
    simp [isJsonStringLiteral, BareValue, none]
  | cons ch rest =>
    have starts := number_starts ch rest
    have numeric := numeric_literal_eq (ch :: rest)
    have nameT : ch :: rest = [0x74, 0x72, 0x75, 0x65] → ch = 0x74 ∧ (ch :: rest).length = 4 := by
      rintro ⟨⟩
      decide
    have nameF : ch :: rest = [0x66, 0x61, 0x6c, 0x73, 0x65] →
        ch = 0x66 ∧ (ch :: rest).length = 5 := by
      rintro ⟨⟩
      decide
    have nameN : ch :: rest = [0x6e, 0x75, 0x6c, 0x6c] → ch = 0x6e ∧ (ch :: rest).length = 4 := by
      rintro ⟨⟩
      decide
    simp only [isJsonStringLiteral, BareValue]
    split_ifs with letterT letterF letterN numeral
    · have number : ¬ Number (ch :: rest) := fun isNumber =>
        absurd (letterT.1 ▸ starts isNumber) (by decide)
      simp_all
    · have number : ¬ Number (ch :: rest) := fun isNumber =>
        absurd (letterF.1 ▸ starts isNumber) (by decide)
      simp_all
    · have number : ¬ Number (ch :: rest) := fun isNumber =>
        absurd (letterN.1 ▸ starts isNumber) (by decide)
      simp_all
    · rw [Bool.not_eq_false', numeric]
      refine ⟨Or.inl, ?_⟩
      rintro (number | same | same | same)
      · exact number
      · exact absurd (nameT same) letterT
      · exact absurd (nameF same) letterF
      · exact absurd (nameN same) letterN
    · refine iff_of_false not_false ?_
      rintro (number | same | same | same)
      · exact numeral (starts number)
      · exact letterT (nameT same)
      · exact letterF (nameF same)
      · exact letterN (nameN same)

/-- A value is quoted unless it is a literal name or a word of the number
grammar, and the automaton accepts that grammar exactly. -/
theorem inference_exact (val : List Byte) :
    (isJsonStringLiteral val = false ↔
      Number val ∨ val = [0x74, 0x72, 0x75, 0x65] ∨ val = [0x66, 0x61, 0x6c, 0x73, 0x65] ∨
        val = [0x6e, 0x75, 0x6c, 0x6c]) ∧
      (isJsonNumericLiteral val = true ↔ Number val) :=
  ⟨string_literal_eq val, numeric_literal_eq val⟩

end JPipe
