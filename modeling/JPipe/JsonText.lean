import Mathlib.Data.UInt
import Mathlib.Data.List.Basic

/-!
# JSON texts over bytes

The grammar of RFC 8259 for texts given as bytes, every byte from 0x80 on being
an ordinary character of a string. A string body is the text between the two
quotation marks; `unescape` is defined exactly on the bodies of the grammar and
gives the bytes the body stands for. A `\uXXXX` escape stands for a UTF-16 code
unit, two units that form a surrogate pair for one character, and a unit that
is no character of its own for its three-byte generalized encoding.

A derivation of an object records its members: the raw body of each name and
the raw text of each value, in the order of the text.

The last part is a necessary condition that needs no parse. Reading quotation
marks and backslashes alone, every derivable text starts and ends outside a
string, and has no backslash outside one.
-/

namespace JsonText

abbrev Byte := UInt8

/-- `quotation-mark`, the delimiter of a string. -/
def quotationMark : Byte := 0x22

/-- `escape`, which opens an escape sequence inside a string. -/
def escape : Byte := 0x5c

/-- `ws`: any run of space, tab, line feed and carriage return. -/
def Blank (text : List Byte) : Prop :=
  ∀ byte ∈ text, byte = 0x20 ∨ byte = 0x09 ∨ byte = 0x0a ∨ byte = 0x0d

/-- `DIGIT`. -/
def Digit (byte : Byte) : Prop := 0x30 ≤ byte ∧ byte ≤ 0x39

instance (byte : Byte) : Decidable (Digit byte) := inferInstanceAs (Decidable (_ ∧ _))

/-- `1*DIGIT`. -/
def Digits (text : List Byte) : Prop := text ≠ [] ∧ ∀ byte ∈ text, Digit byte

/-- `int`: a zero, or digits that do not start with a zero. -/
def Int (text : List Byte) : Prop :=
  text = [0x30] ∨ ∃ first rest, text = first :: rest ∧ Digit first ∧ first ≠ 0x30 ∧
    ∀ byte ∈ rest, Digit byte

/-- `[ frac ]`. -/
def Frac (text : List Byte) : Prop := text = [] ∨ ∃ digits, text = 0x2e :: digits ∧ Digits digits

/-- `[ exp ]`, with its optional sign. -/
def Exp (text : List Byte) : Prop :=
  text = [] ∨ ∃ letter sign digits, text = letter :: (sign ++ digits) ∧
    (letter = 0x65 ∨ letter = 0x45) ∧ (sign = [] ∨ sign = [0x2b] ∨ sign = [0x2d]) ∧ Digits digits

/-- `number = [ minus ] int [ frac ] [ exp ]`. -/
def Number (text : List Byte) : Prop :=
  ∃ minus int frac exp, text = minus ++ int ++ frac ++ exp ∧
    (minus = [] ∨ minus = [0x2d]) ∧ Int int ∧ Frac frac ∧ Exp exp

/-- The value of one `HEXDIG`, in either case. -/
def hexDigit (byte : Byte) : Option Nat :=
  if 0x30 ≤ byte ∧ byte ≤ 0x39 then some (byte.toNat - 0x30)
  else if 0x41 ≤ byte ∧ byte ≤ 0x46 then some (byte.toNat - 0x41 + 10)
  else if 0x61 ≤ byte ∧ byte ≤ 0x66 then some (byte.toNat - 0x61 + 10)
  else none

/-- The code unit named by `4HEXDIG`. -/
def codeUnit (first second third fourth : Byte) : Option Nat := do
  let a ← hexDigit first
  let b ← hexDigit second
  let c ← hexDigit third
  let d ← hexDigit fourth
  pure (((a * 16 + b) * 16 + c) * 16 + d)

/-- The byte a two-character escape stands for, by its second character. -/
def shortEscape (kind : Byte) : Option Byte :=
  if kind = 0x22 ∨ kind = 0x5c ∨ kind = 0x2f then some kind
  else if kind = 0x62 then some 0x08
  else if kind = 0x66 then some 0x0c
  else if kind = 0x6e then some 0x0a
  else if kind = 0x72 then some 0x0d
  else if kind = 0x74 then some 0x09
  else none

/-- One `char` of a string: a byte of its own, or a UTF-16 code unit. -/
inductive Element where
  | octet : Byte → Element
  | unit : Nat → Element
deriving DecidableEq

/-- Split a string body into its elements. A bare quotation mark, a control
byte, or an escape sequence outside the grammar leaves no reading. -/
def elements : List Byte → Option (List Element)
  | [] => some []
  | first :: rest =>
    if first = escape then
      match rest with
      | [] => none
      | kind :: after =>
        if kind = 0x75 then
          match after with
          | a :: b :: c :: d :: tail =>
            (codeUnit a b c d).bind fun value =>
              (elements tail).map (Element.unit value :: ·)
          | _ => none
        else
          (shortEscape kind).bind fun byte => (elements after).map (Element.octet byte :: ·)
    else if first = quotationMark ∨ first < 0x20 then none
    else (elements rest).map (Element.octet first :: ·)

/-- The generalized UTF-8 encoding of a code point. -/
def utf8 (code : Nat) : List Byte :=
  if code < 0x80 then [UInt8.ofNat code]
  else if code < 0x800 then [UInt8.ofNat (0xc0 + code / 64), UInt8.ofNat (0x80 + code % 64)]
  else if code < 0x10000 then
    [UInt8.ofNat (0xe0 + code / 4096), UInt8.ofNat (0x80 + code / 64 % 64),
      UInt8.ofNat (0x80 + code % 64)]
  else
    [UInt8.ofNat (0xf0 + code / 262144), UInt8.ofNat (0x80 + code / 4096 % 64),
      UInt8.ofNat (0x80 + code / 64 % 64), UInt8.ofNat (0x80 + code % 64)]

/-- The encoding of a high surrogate that no low surrogate has completed. -/
def unpaired : Option Nat → List Byte
  | none => []
  | some high => utf8 high

/-- The bytes the elements stand for, after a high surrogate still to be paired. -/
def decodeAfter : Option Nat → List Element → List Byte
  | pending, [] => unpaired pending
  | pending, .octet byte :: rest => unpaired pending ++ byte :: decodeAfter none rest
  | pending, .unit code :: rest =>
    match pending.filter (fun _ => decide (0xdc00 ≤ code ∧ code < 0xe000)) with
    | some high =>
      utf8 (0x10000 + (high - 0xd800) * 0x400 + (code - 0xdc00)) ++ decodeAfter none rest
    | none =>
      unpaired pending ++
        if 0xd800 ≤ code ∧ code < 0xdc00 then decodeAfter (some code) rest
        else utf8 code ++ decodeAfter none rest

/-- The bytes a sequence of elements stands for. -/
def decode (read : List Element) : List Byte := decodeAfter none read

/-- The bytes a string body stands for, when it is a body of the grammar. -/
def unescape (body : List Byte) : Option (List Byte) := (elements body).map decode

/-- The text of a string with this body. -/
def quoted (body : List Byte) : List Byte := quotationMark :: body ++ [quotationMark]

/-- The syntactic categories below a JSON text. The members of an object carry
the raw name body and the raw value text of each member. -/
inductive Symbol where
  | value
  | values
  | members (named : List (List Byte × List Byte))

/-- Texts derived by the grammar. White space may surround every structural
character, hence every value inside brackets and every name and value of a
member. -/
inductive Derives : Symbol → List Byte → Prop where
  | trueLiteral : Derives .value [0x74, 0x72, 0x75, 0x65]
  | falseLiteral : Derives .value [0x66, 0x61, 0x6c, 0x73, 0x65]
  | nullLiteral : Derives .value [0x6e, 0x75, 0x6c, 0x6c]
  | number (text : List Byte) (numeric : Number text) : Derives .value text
  | string (body : List Byte) (readable : (unescape body).isSome) : Derives .value (quoted body)
  | emptyArray (space : List Byte) (blank : Blank space) : Derives .value (0x5b :: space ++ [0x5d])
  | array (inner : List Byte) (derived : Derives .values inner) :
      Derives .value (0x5b :: inner ++ [0x5d])
  | emptyObject (space : List Byte) (blank : Blank space) :
      Derives .value (0x7b :: space ++ [0x7d])
  | object (named : List (List Byte × List Byte)) (inner : List Byte)
      (derived : Derives (.members named) inner) : Derives .value (0x7b :: inner ++ [0x7d])
  | lastValue (before text after : List Byte) (left : Blank before) (right : Blank after)
      (derived : Derives .value text) : Derives .values (before ++ text ++ after)
  | moreValues (before text after rest : List Byte) (left : Blank before) (right : Blank after)
      (derived : Derives .value text) (others : Derives .values rest) :
      Derives .values (before ++ text ++ after ++ 0x2c :: rest)
  | lastMember (before name gap margin text after : List Byte)
      (spaced : Blank before ∧ Blank gap ∧ Blank margin ∧ Blank after)
      (readable : (unescape name).isSome) (derived : Derives .value text) :
      Derives (.members [(name, text)])
        (before ++ quoted name ++ gap ++ 0x3a :: (margin ++ text ++ after))
  | moreMembers (before name gap margin text after rest : List Byte)
      (named : List (List Byte × List Byte))
      (spaced : Blank before ∧ Blank gap ∧ Blank margin ∧ Blank after)
      (readable : (unescape name).isSome) (derived : Derives .value text)
      (others : Derives (.members named) rest) :
      Derives (.members ((name, text) :: named))
        (before ++ quoted name ++ gap ++ 0x3a :: (margin ++ text ++ after) ++ 0x2c :: rest)

/-- A JSON text that is an object with exactly these members, in this order. -/
def ObjectText (named : List (List Byte × List Byte)) (text : List Byte) : Prop :=
  ∃ before inner after, text = before ++ 0x7b :: (inner ++ 0x7d :: after) ∧
    Blank before ∧ Blank after ∧ (Derives (.members named) inner ∨ named = [] ∧ Blank inner)

/-! ### Quotation marks and backslashes alone -/

/-- Where a reader of quotation marks and backslashes stands. -/
inductive Place where
  | outside
  | inside
  | escaped
deriving DecidableEq

/-- Read one byte; a backslash outside a string has no reading. -/
def advance : Place → Byte → Option Place
  | .outside, byte =>
    if byte = quotationMark then some .inside else if byte = escape then none else some .outside
  | .inside, byte =>
    if byte = quotationMark then some .outside
    else if byte = escape then some .escaped else some .inside
  | .escaped, _ => some .inside

/-- Read a whole text from a given place. -/
def scan : Place → List Byte → Option Place
  | place, [] => some place
  | place, byte :: rest => (advance place byte).bind (fun next => scan next rest)

/-- Reading a concatenation is reading its parts in turn. -/
theorem scan_append (place : Place) (first second : List Byte) :
    scan place (first ++ second) = (scan place first).bind (fun middle => scan middle second) := by
  induction first generalizing place with
  | nil => rfl
  | cons byte rest ih =>
    simp only [List.cons_append, scan]
    cases advance place byte with
    | none => rfl
    | some next => exact ih next

/-- Text without quotation marks and backslashes does not move the reader. -/
theorem scan_plain (text : List Byte) (plain : ∀ byte ∈ text, byte ≠ quotationMark ∧ byte ≠ escape)
    (place : Place) (unescaped : place ≠ .escaped) : scan place text = some place := by
  induction text with
  | nil => rfl
  | cons byte rest ih =>
    obtain ⟨notQuote, notEscape⟩ := plain byte List.mem_cons_self
    have following := ih (fun other member => plain other (List.mem_cons_of_mem byte member))
    cases place with
    | outside => simpa [scan, advance, notQuote, notEscape] using following
    | inside => simpa [scan, advance, notQuote, notEscape] using following
    | escaped => exact absurd rfl unescaped

/-- The text of a string returns the reader to where it stood, its body being
read inside. -/
theorem scan_quoted (body : List Byte) (closed : scan .inside body = some .inside) :
    scan .outside (quoted body) = some .outside := by
  have opened : scan .outside (quotationMark :: (body ++ [quotationMark])) =
      scan .inside (body ++ [quotationMark]) := by
    simp [scan, advance]
  rw [quoted, List.cons_append, opened, scan_append, closed, Option.bind_some]
  simp [scan, advance]

/-- No hexadecimal digit is a quotation mark or a backslash. -/
theorem hex_digit_plain (byte : Byte) (read : (hexDigit byte).isSome) :
    byte ≠ quotationMark ∧ byte ≠ escape := by
  constructor
  · rintro rfl
    exact absurd read (by decide)
  · rintro rfl
    exact absurd read (by decide)

/-- A readable code unit is four bytes that are neither mark. -/
theorem code_unit_plain (a b c d : Byte) (value : Nat) (read : codeUnit a b c d = some value) :
    ∀ byte ∈ [a, b, c, d], byte ≠ quotationMark ∧ byte ≠ escape := by
  simp only [codeUnit, Option.bind_eq_bind, Option.bind_eq_some_iff] at read
  obtain ⟨x, first, y, second, z, third, w, fourth, _⟩ := read
  intro byte member
  apply hex_digit_plain
  simp only [List.mem_cons, List.not_mem_nil, or_false] at member
  rcases member with rfl | rfl | rfl | rfl <;> simp [*]

/-- A readable string body keeps the reader inside: each element is a byte that
is neither mark, or a backslash with the bytes it escapes. -/
theorem scan_body (body : List Byte) (readable : (elements body).isSome) :
    scan .inside body = some .inside := by
  have opened (kind : Byte) (after : List Byte) :
      scan .inside (escape :: kind :: after) = scan .inside after := by
    simp [scan, advance, escape, quotationMark]
  fun_induction elements body with
  | case1 => rfl
  | case2 | case4 | case6 => simp at readable
  | case3 a b c d tail ih =>
    obtain ⟨value, unit, rest⟩ : ∃ value, codeUnit a b c d = some value ∧ (elements tail).isSome := by
      cases unit : codeUnit a b c d <;> simp_all
    rw [opened, show a :: b :: c :: d :: tail = [a, b, c, d] ++ tail from rfl, scan_append,
      scan_plain _ (code_unit_plain a b c d value unit) _ (by decide)]
    exact ih rest
  | case5 kind after _ ih =>
    rw [opened]
    cases short : shortEscape kind <;> simp_all
  | case7 first rest notEscape admitted ih =>
    have notQuote : first ≠ quotationMark := fun same => admitted (Or.inl same)
    have moved : scan .inside (first :: rest) = scan .inside rest := by
      simp [scan, advance, notEscape, notQuote]
    rw [moved]
    exact ih (by simpa using readable)

/-- Every quotation mark of a text read from inside a string is escaped. -/
def Guarded (text : List Byte) : Prop :=
  ∀ before after, text = before ++ quotationMark :: after → scan .inside before = some .escaped

theorem guarded_plain {text : List Byte} (plain : quotationMark ∉ text) : Guarded text := by
  rintro before after rfl
  simp at plain

/-- A piece that leaves the reader inside guards what follows it as well. -/
theorem guarded_append {piece tail : List Byte} (own : Guarded piece)
    (closed : scan .inside piece = some .inside) (others : Guarded tail) :
    Guarded (piece ++ tail) := by
  intro before after split
  rcases List.append_eq_append_iff.mp split with ⟨more, rfl, rest⟩ | ⟨more, rfl, rest⟩
  · rw [scan_append, closed, Option.bind_some]
    exact others more after rest
  · cases more with
    | nil =>
      have empty := others [] after rest.symm
      cases empty
    | cons first left =>
      obtain ⟨rfl, _⟩ := List.cons_eq_cons.mp rest
      exact own before left rfl

/-- A readable string body guards its quotation marks: a bare one is no element,
and no escape sequence has one but after its backslash. -/
theorem guarded_body (body : List Byte) (readable : (elements body).isSome) : Guarded body := by
  fun_induction elements body with
  | case1 => exact guarded_plain (by simp)
  | case2 | case4 | case6 => simp at readable
  | case3 a b c d tail ih =>
    obtain ⟨value, unit, rest⟩ : ∃ value, codeUnit a b c d = some value ∧ (elements tail).isSome := by
      cases unit : codeUnit a b c d <;> simp_all
    have plain := code_unit_plain a b c d value unit
    have digits : quotationMark ∉ [a, b, c, d] := fun member => (plain _ member).1 rfl
    change Guarded ([escape, 0x75, a, b, c, d] ++ tail)
    refine guarded_append (guarded_plain ?_) ?_ (ih rest)
    · intro member
      rcases List.mem_cons.mp member with same | member
      · exact absurd same (by decide)
      · rcases List.mem_cons.mp member with same | member
        · exact absurd same (by decide)
        · exact digits member
    · exact scan_plain [a, b, c, d] plain .inside (by decide)
  | case5 kind after notUnit ih =>
    have rest : (elements after).isSome := by
      cases short : shortEscape kind <;> simp_all
    change Guarded ([escape, kind] ++ after)
    refine guarded_append ?_ rfl (ih rest)
    rintro (_ | ⟨first, _ | ⟨second, others⟩⟩) left split
    · exact absurd (List.cons_eq_cons.mp split).1 (by decide)
    · obtain ⟨rfl, _⟩ := List.cons_eq_cons.mp split
      rfl
    · simp at split
  | case7 first rest notEscape admitted ih =>
    have notQuote : first ≠ quotationMark := fun same => admitted (Or.inl same)
    change Guarded ([first] ++ rest)
    refine guarded_append (guarded_plain ?_) ?_ (ih (by simpa using readable))
    · simpa using notQuote.symm
    · simp [scan, advance, notEscape, notQuote]

/-- White space, digits and the punctuation of numbers are neither mark. -/
theorem blank_plain {text : List Byte} (blank : Blank text) :
    ∀ byte ∈ text, byte ≠ quotationMark ∧ byte ≠ escape := by
  intro byte member
  rcases blank byte member with rfl | rfl | rfl | rfl <;> decide

/-- The bytes a number is made of. -/
def NumberByte (byte : Byte) : Prop :=
  Digit byte ∨ byte = 0x2b ∨ byte = 0x2d ∨ byte = 0x2e ∨ byte = 0x45 ∨ byte = 0x65

instance (byte : Byte) : Decidable (NumberByte byte) := inferInstanceAs (Decidable (_ ∨ _))

theorem int_bytes {text : List Byte} (int : Int text) : ∀ byte ∈ text, NumberByte byte := by
  rcases int with rfl | ⟨first, rest, rfl, digit, _, digits⟩
  · intro byte member
    exact Or.inl (List.mem_singleton.mp member ▸ by decide)
  · intro byte member
    rcases List.mem_cons.mp member with rfl | member
    · exact Or.inl digit
    · exact Or.inl (digits byte member)

theorem frac_bytes {text : List Byte} (frac : Frac text) : ∀ byte ∈ text, NumberByte byte := by
  rcases frac with rfl | ⟨digits, rfl, _, all⟩
  · simp
  · intro byte member
    rcases List.mem_cons.mp member with rfl | member
    · simp [NumberByte]
    · exact Or.inl (all byte member)

theorem exp_bytes {text : List Byte} (exp : Exp text) : ∀ byte ∈ text, NumberByte byte := by
  rcases exp with rfl | ⟨letter, sign, digits, rfl, isLetter, isSign, _, all⟩
  · simp
  · intro byte member
    rcases List.mem_cons.mp member with rfl | member
    · rcases isLetter with rfl | rfl <;> simp [NumberByte]
    · rcases List.mem_append.mp member with member | member
      · rcases isSign with rfl | rfl | rfl
        · simp at member
        · simp [NumberByte, List.mem_singleton.mp member]
        · simp [NumberByte, List.mem_singleton.mp member]
      · exact Or.inl (all byte member)

theorem number_bytes {text : List Byte} (number : Number text) :
    ∀ byte ∈ text, NumberByte byte := by
  obtain ⟨minus, int, frac, exp, rfl, isMinus, isInt, isFrac, isExp⟩ := number
  intro byte member
  simp only [List.mem_append] at member
  rcases member with ((member | member) | member) | member
  · rcases isMinus with rfl | rfl
    · simp at member
    · simp [NumberByte, List.mem_singleton.mp member]
  · exact int_bytes isInt byte member
  · exact frac_bytes isFrac byte member
  · exact exp_bytes isExp byte member

/-- A number has no mark of a string and no comma. -/
theorem number_byte_plain {byte : Byte} (numeral : NumberByte byte) :
    byte ≠ quotationMark ∧ byte ≠ escape ∧ byte ≠ 0x2c := by
  have other (mark : Byte) (none : ¬ NumberByte mark) : byte ≠ mark := by
    rintro rfl
    exact none numeral
  exact ⟨other _ (by decide), other _ (by decide), other _ (by decide)⟩

theorem number_plain {text : List Byte} (number : Number text) :
    ∀ byte ∈ text, byte ≠ quotationMark ∧ byte ≠ escape := by
  intro byte member
  obtain ⟨notQuote, notEscape, _⟩ := number_byte_plain (number_bytes number byte member)
  exact ⟨notQuote, notEscape⟩

/-- A text that leaves the reader outside a string wherever it starts outside. -/
def Balanced (text : List Byte) : Prop := scan .outside text = some .outside

instance (text : List Byte) : Decidable (Balanced text) := inferInstanceAs (Decidable (_ = _))

theorem balanced_append {first second : List Byte} (left : Balanced first)
    (right : Balanced second) : Balanced (first ++ second) := by
  rw [Balanced, scan_append, left]
  exact right

theorem balanced_plain {text : List Byte}
    (plain : ∀ byte ∈ text, byte ≠ quotationMark ∧ byte ≠ escape) : Balanced text :=
  scan_plain text plain .outside (by decide)

theorem balanced_cons {byte : Byte} {text : List Byte} (plain : byte ≠ quotationMark ∧ byte ≠ escape)
    (rest : Balanced text) : Balanced (byte :: text) := by
  have first : Balanced [byte] := balanced_plain (by simpa using plain)
  exact balanced_append first rest

theorem balanced_quoted {body : List Byte} (readable : (unescape body).isSome) :
    Balanced (quoted body) := by
  apply scan_quoted
  apply scan_body
  simpa [unescape] using readable

/-- The text of a member is balanced when its value is. -/
theorem balanced_member {before name gap margin text after : List Byte}
    (spaced : Blank before ∧ Blank gap ∧ Blank margin ∧ Blank after)
    (readable : (unescape name).isSome) (value : Balanced text) :
    Balanced (before ++ quoted name ++ gap ++ 0x3a :: (margin ++ text ++ after)) := by
  obtain ⟨left, middle, margins, right⟩ := spaced
  have head : Balanced (before ++ quoted name ++ gap) :=
    balanced_append (balanced_append (balanced_plain (blank_plain left)) (balanced_quoted readable))
      (balanced_plain (blank_plain middle))
  have tail : Balanced (margin ++ text ++ after) :=
    balanced_append (balanced_append (balanced_plain (blank_plain margins)) value)
      (balanced_plain (blank_plain right))
  exact balanced_append head (balanced_cons (by decide) tail)

/-- Every derivable text is balanced, by induction on its derivation. -/
theorem derives_balanced {symbol : Symbol} {text : List Byte} (derived : Derives symbol text) :
    Balanced text := by
  induction derived with
  | trueLiteral | falseLiteral | nullLiteral => decide
  | number text numeric => exact balanced_plain (number_plain numeric)
  | string body readable => exact balanced_quoted readable
  | emptyArray space blank | emptyObject space blank =>
    exact balanced_cons (by decide)
      (balanced_append (balanced_plain (blank_plain blank)) (by decide))
  | array inner _ ih | object _ inner _ ih =>
    exact balanced_cons (by decide) (balanced_append ih (by decide))
  | lastValue before text after left right _ ih =>
    exact balanced_append (balanced_append (balanced_plain (blank_plain left)) ih)
      (balanced_plain (blank_plain right))
  | moreValues before text after rest left right _ _ ih following =>
    exact balanced_append (balanced_append (balanced_append (balanced_plain (blank_plain left)) ih)
      (balanced_plain (blank_plain right))) (balanced_cons (by decide) following)
  | lastMember before name gap margin text after spaced readable _ ih =>
    exact balanced_member spaced readable ih
  | moreMembers before name gap margin text after rest named spaced readable _ _ ih following =>
    exact balanced_append (balanced_member spaced readable ih) (balanced_cons (by decide) following)

/-- A JSON text that is an object is balanced. -/
theorem object_balanced {named : List (List Byte × List Byte)} {text : List Byte}
    (object : ObjectText named text) : Balanced text := by
  obtain ⟨before, inner, after, rfl, left, right, derived⟩ := object
  have middle : Balanced inner := by
    rcases derived with derived | ⟨_, blank⟩
    · exact derives_balanced derived
    · exact balanced_plain (blank_plain blank)
  refine balanced_append (balanced_plain (blank_plain left)) (balanced_cons (by decide) ?_)
  exact balanced_append middle (balanced_cons (by decide) (balanced_plain (blank_plain right)))

end JsonText
