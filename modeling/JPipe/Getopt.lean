import Mathlib.Data.UInt
import Mathlib.Data.List.TakeWhile
import Mathlib.Data.List.Nodup

/-!
# Reading options from words

`getopt_long` over a list of words. A word that starts with a dash and has more
is read as options: after two dashes the name of a long option, which may be
abbreviated and may have its argument after `=`, and after one dash a bundle of
letters, the first of which that requires an argument takes the rest of the
word. An option whose argument is not in its own word takes the next one,
whatever that looks like. The word `--` ends the options, and every other word is
an operand.

The events are what successive calls return, up to the -1 of the last. The option
string starts with a colon, so that a missing argument has an event of its own;
no option has an optional argument.
-/

namespace Getopt

abbrev Byte := UInt8

abbrev Word := List Byte

/-- `'-'`. -/
def dash : Byte := 0x2d

/-- `'='`. -/
def equals : Byte := 0x3d

/-- `':'`. -/
def colon : Byte := 0x3a

/-- `';'`. -/
def semicolon : Byte := 0x3b

/-- `struct option` with a null flag. -/
structure LongOption where
  name : Word
  hasArg : Bool
  val : Byte
deriving DecidableEq, Repr

/-- The options of a program. -/
structure Table where
  optstring : List Byte
  longOptions : List LongOption

/-- Whether operands before options are passed over, or end the options as under
`POSIXLY_CORRECT`. -/
inductive Ordering where
  | permute
  | requireOrder
deriving DecidableEq, Repr

/-- What one call returns: an option and its `optarg`, `':'` or `'?'`. -/
inductive Event where
  | option (val : Byte) (optarg : Option Word)
  | missing
  | unknown
deriving DecidableEq, Repr

/-- Whether a letter of the option string requires an argument. -/
def shortTakes (optstring : List Byte) (letter : Byte) : Option Bool :=
  if letter = colon ∨ letter = semicolon then none
  else
    match optstring.dropWhile (· ≠ letter) with
    | [] => none
    | _ :: next => some (next.head? = some colon)

/-- The long option of a name: the one that has it, or the only one it
abbreviates. -/
def lookupLong (longOptions : List LongOption) (name : Word) : Option LongOption :=
  match longOptions.find? (·.name = name) with
  | some exact => some exact
  | none =>
    match longOptions.filter (name <+: ·.name) with
    | [] => none
    | first :: others =>
      if ∀ other ∈ others, other.hasArg = first.hasArg ∧ other.val = first.val then some first
      else none

/-- The events of one word, and the option that takes the next word. -/
structure Reading where
  events : List Event
  pending : Option Byte
deriving DecidableEq, Repr

/-- What follows two dashes. -/
def readLong (table : Table) (text : Word) : Reading :=
  match lookupLong table.longOptions (text.takeWhile (· ≠ equals)) with
  | none => ⟨[.unknown], none⟩
  | some option =>
    match text.dropWhile (· ≠ equals) with
    | [] => if option.hasArg then ⟨[], some option.val⟩ else ⟨[.option option.val none], none⟩
    | _ :: optarg =>
      if option.hasArg then ⟨[.option option.val (some optarg)], none⟩ else ⟨[.unknown], none⟩

/-- What follows one dash. -/
def readBundle (table : Table) : Word → Reading
  | [] => ⟨[], none⟩
  | letter :: rest =>
    match shortTakes table.optstring letter with
    | none =>
      let others := readBundle table rest
      ⟨.unknown :: others.events, others.pending⟩
    | some false =>
      let others := readBundle table rest
      ⟨.option letter none :: others.events, others.pending⟩
    | some true => if rest = [] then ⟨[], some letter⟩ else ⟨[.option letter (some rest)], none⟩

/-- What a word is by itself. -/
inductive Kind where
  | operand
  | ending
  | options (reading : Reading)
deriving DecidableEq, Repr

/-- One word of the command line. -/
def readWord (table : Table) : Word → Kind
  | [] => .operand
  | [_] => .operand
  | first :: second :: text =>
    if first ≠ dash then .operand
    else if second ≠ dash then .options (readBundle table (second :: text))
    else if text = [] then .ending
    else .options (readLong table text)

/-- The events of all calls, and the operands that are left. -/
structure Scan where
  events : List Event
  operands : List Word
deriving DecidableEq, Repr

/-- All calls of `getopt_long` on these words, the first of them being the argument
of an option that is pending. -/
def scan (ordering : Ordering) (table : Table) : Option Byte → List Word → Scan
  | none, [] => ⟨[], []⟩
  | some _, [] => ⟨[.missing], []⟩
  | some val, optarg :: rest =>
    let others := scan ordering table none rest
    ⟨.option val (some optarg) :: others.events, others.operands⟩
  | none, word :: rest =>
    match readWord table word with
    | .ending => ⟨[], rest⟩
    | .operand =>
      match ordering with
      | .requireOrder => ⟨[], word :: rest⟩
      | .permute =>
        let others := scan ordering table none rest
        ⟨others.events, word :: others.operands⟩
    | .options reading =>
      let others := scan ordering table reading.pending rest
      ⟨reading.events ++ others.events, others.operands⟩

/-! ### Where an option is met -/

/-- The words read as options: not those after `--`, and not one that is the
argument of the option before it. -/
def optionWords (table : Table) : Bool → List Word → List Word
  | _, [] => []
  | true, _ :: rest => optionWords table false rest
  | false, word :: rest =>
    match readWord table word with
    | .ending => []
    | .operand => optionWords table false rest
    | .options reading => word :: optionWords table reading.pending.isSome rest

/-- The letters have this flag among the flags at their front. -/
def FlagAmong (table : Table) (val : Byte) (letters : Word) : Prop :=
  ∃ front back, letters = front ++ val :: back ∧
    ∀ flag ∈ front ++ [val], shortTakes table.optstring flag = some false

/-- The name is that of this flag, in full or abbreviated. -/
def FlagNamed (table : Table) (val : Byte) (name : Word) : Prop :=
  equals ∉ name ∧ ∃ option, lookupLong table.longOptions name = some option ∧
    option.val = val ∧ option.hasArg = false

/-- A word spells a flag: its letter in a bundle, or its name after two dashes. -/
inductive SpellsFlag (table : Table) (val : Byte) : Word → Prop where
  | short (letters : Word) (single : letters.head? ≠ some dash)
      (among : FlagAmong table val letters) : SpellsFlag table val (dash :: letters)
  | long (name : Word) (some : name ≠ []) (named : FlagNamed table val name) :
      SpellsFlag table val (dash :: dash :: name)

/-- No call reports an error, and no operand is left. -/
structure Scan.Clean (scan : Scan) : Prop where
  known : .unknown ∉ scan.events
  complete : .missing ∉ scan.events
  finished : scan.operands = []

/-- A letter that is known stands in the option string. -/
theorem short_takes_listed {optstring : List Byte} {letter : Byte} {required : Bool}
    (known : shortTakes optstring letter = some required) : letter ∈ optstring := by
  by_contra absent
  have none : optstring.dropWhile (· ≠ letter) = [] := by
    apply List.dropWhile_eq_nil_iff.mpr
    intro byte member
    simpa using ne_of_mem_of_not_mem member absent
  rw [shortTakes, none] at known
  split_ifs at known

/-- A flag is among letters that have a flag before it exactly when it is that
flag or among the others. -/
theorem flag_among_cons {table : Table} {letter : Byte}
    (isFlag : shortTakes table.optstring letter = some false) (val : Byte) (rest : Word) :
    FlagAmong table val (letter :: rest) ↔ val = letter ∨ FlagAmong table val rest := by
  constructor
  · intro ⟨front, back, split, flags⟩
    cases front with
    | nil => exact Or.inl (List.cons.inj split).1.symm
    | cons first others =>
      obtain ⟨_, split⟩ := List.cons.inj split
      refine Or.inr ⟨others, back, split, ?_⟩
      exact (List.forall_mem_cons.mp flags).2
  · intro among
    cases among with
    | inl same => exact ⟨[], rest, by rw [same, List.nil_append], by simpa [same] using isFlag⟩
    | inr later =>
      obtain ⟨front, back, split, flags⟩ := later
      refine ⟨letter :: front, back, by rw [split, List.cons_append], ?_⟩
      exact List.forall_mem_cons.mpr ⟨isFlag, flags⟩

/-- Nothing is among letters whose first is no flag. -/
theorem flag_not_among {table : Table} {letter : Byte}
    (notFlag : shortTakes table.optstring letter ≠ some false) (val : Byte) (rest : Word) :
    ¬ FlagAmong table val (letter :: rest) := by
  intro ⟨front, back, split, flags⟩
  cases front with
  | nil =>
    obtain ⟨same, _⟩ := List.cons.inj split
    exact notFlag (same ▸ flags val (by simp))
  | cons first others =>
    obtain ⟨same, _⟩ := List.cons.inj split
    exact notFlag (same ▸ flags first (by simp))

/-- A bundle of known letters reports the flags at its front. -/
theorem flag_in_bundle (table : Table) (val : Byte) (letters : Word)
    (known : .unknown ∉ (readBundle table letters).events) :
    .option val none ∈ (readBundle table letters).events ↔ FlagAmong table val letters := by
  induction letters with
  | nil => simp [readBundle, FlagAmong]
  | cons letter rest ih =>
    cases takes : shortTakes table.optstring letter with
    | none => simp [readBundle, takes] at known
    | some required =>
      cases required with
      | true =>
        have apart : ¬ FlagAmong table val (letter :: rest) :=
          flag_not_among (by simp [takes]) val rest
        rw [readBundle, takes]
        split_ifs <;> simp [apart]
      | false =>
        have others := ih (by simpa [readBundle, takes] using known)
        rw [flag_among_cons takes, ← others, readBundle, takes]
        simp

/-- The name of a known option reports a flag when it is that of the flag. -/
theorem flag_in_name (table : Table) (val : Byte) (name : Word) :
    .option val none ∈ (readLong table name).events ↔ FlagNamed table val name := by
  have named : FlagNamed table val name ↔ equals ∉ name ∧
      (lookupLong table.longOptions name).any (fun option => option.val = val ∧ !option.hasArg) := by
    rw [FlagNamed, Option.any_eq_true]
    simp
  rw [named]
  by_cases valued : equals ∈ name
  · -- With an argument of its own, no option is reported as a flag.
    obtain ⟨optarg, value⟩ : ∃ optarg, name.dropWhile (· ≠ equals) = equals :: optarg := by
      obtain ⟨front, back, split, first⟩ := List.eq_append_cons_of_mem valued
      refine ⟨back, ?_⟩
      rw [split, List.dropWhile_append_of_pos (by simpa using fun a m => ne_of_mem_of_not_mem m first)]
      simp
    rw [readLong, value]
    cases lookupLong table.longOptions (name.takeWhile (· ≠ equals)) with
    | none => simp [valued]
    | some option => cases required : option.hasArg <;> simp [required, valued]
  · have plain : ∀ byte ∈ name, decide (byte ≠ equals) = true := by
      intro byte member
      simpa using ne_of_mem_of_not_mem member valued
    have whole : name.takeWhile (· ≠ equals) = name := List.takeWhile_eq_self_iff.mpr plain
    have nothing : name.dropWhile (· ≠ equals) = [] := List.dropWhile_eq_nil_iff.mpr plain
    rw [readLong, whole, nothing]
    cases lookupLong table.longOptions name with
    | none => simp
    | some option =>
      have same : val = option.val ↔ option.val = val := eq_comm
      cases required : option.hasArg <;> simp [required, valued, same]

/-- What a known word reports as a flag is what it spells. -/
theorem flag_in_word {table : Table} {word : Word} {reading : Reading}
    (read : readWord table word = .options reading) (known : .unknown ∉ reading.events)
    (val : Byte) : .option val none ∈ reading.events ↔ SpellsFlag table val word := by
  match word with
  | [] => cases read
  | [_] => cases read
  | first :: second :: text =>
    rw [readWord] at read
    split_ifs at read with starts single empty
    · obtain rfl := Kind.options.inj read
      rw [flag_in_bundle table val _ known, not_not.mp starts]
      constructor
      · exact SpellsFlag.short (second :: text) (by simpa using single)
      · intro spells
        cases spells with
        | short _ _ among => exact among
        | long => exact absurd rfl single
    · obtain rfl := Kind.options.inj read
      rw [flag_in_name, not_not.mp starts, not_not.mp single]
      constructor
      · exact SpellsFlag.long text empty
      · intro spells
        cases spells with
        | short _ single _ => exact absurd rfl single
        | long _ _ named => exact named

/-- After calls without an error, the calls that follow report none. -/
theorem clean_after {front : List Event} {others : Scan}
    (clean : Scan.Clean ⟨front ++ others.events, others.operands⟩) :
    .unknown ∉ front ∧ others.Clean := by
  have known := clean.known
  have complete := clean.complete
  simp only [List.mem_append, not_or] at known complete
  exact ⟨known.1, known.2, complete.2, clean.finished⟩

/-- Where no call reports an error and no operand is left, a flag is met exactly
when one of the words read as options spells it. -/
theorem flag_met_iff (ordering : Ordering) (table : Table) (val : Byte) (pending : Option Byte)
    (words : List Word) (clean : (scan ordering table pending words).Clean) :
    .option val none ∈ (scan ordering table pending words).events ↔
      ∃ word ∈ optionWords table pending.isSome words, SpellsFlag table val word := by
  induction words generalizing pending with
  | nil => cases pending <;> simp [scan, optionWords]
  | cons word rest ih =>
    cases pending with
    | some taking =>
      have others : (scan ordering table none rest).Clean := by
        have cleanAll : Scan.Clean ⟨[.option taking (some word)] ++ (scan ordering table none rest).events,
            (scan ordering table none rest).operands⟩ := clean
        exact (clean_after cleanAll).2
      have later := ih none others
      simpa [scan, optionWords] using later
    | none =>
      cases read : readWord table word with
      | ending => simp [scan, optionWords, read]
      | operand =>
        -- An operand is left whatever the ordering.
        have left := clean.finished
        cases ordering <;> simp [scan, read] at left
      | options reading =>
        have split : scan ordering table none (word :: rest) =
            ⟨reading.events ++ (scan ordering table reading.pending rest).events,
              (scan ordering table reading.pending rest).operands⟩ := by
          simp only [scan, read]
        rw [split] at clean ⊢
        obtain ⟨known, others⟩ := clean_after clean
        have words : optionWords table false (word :: rest) =
            word :: optionWords table reading.pending.isSome rest := by
          rw [optionWords, read]
        simp only [Option.isSome_none, words, List.mem_append, flag_in_word read known,
          ih reading.pending others, List.exists_mem_cons_iff]

/-- Where the names of a table start with letters of their own, a name of the
command line stands for the long option it starts. -/
theorem lookup_long_iff {longOptions : List LongOption}
    (apart : (longOptions.map fun option => option.name.head?).Nodup) {name : Word}
    (some : name ≠ []) (option : LongOption) :
    lookupLong longOptions name = .some option ↔ option ∈ longOptions ∧ name <+: option.name := by
  obtain ⟨first, tail, rfl⟩ := List.exists_cons_of_ne_nil some
  have unique {one other : LongOption} (inTable : one ∈ longOptions) (starts : first :: tail <+: one.name)
      (alsoInTable : other ∈ longOptions) (alsoStarts : first :: tail <+: other.name) :
      one = other := by
    apply List.inj_on_of_nodup_map apart inTable alsoInTable
    obtain ⟨more, oneName⟩ := starts
    obtain ⟨others, otherName⟩ := alsoStarts
    simp [← oneName, ← otherName]
  rw [lookupLong]
  cases found : longOptions.find? (·.name = first :: tail) with
  | some exact =>
    have inTable := List.mem_of_find?_eq_some found
    have named : exact.name = first :: tail := by simpa using List.find?_some found
    have starts : first :: tail <+: exact.name := named ▸ List.prefix_rfl
    constructor
    · intro same
      obtain rfl := Option.some.inj same
      exact ⟨inTable, starts⟩
    · intro ⟨alsoInTable, alsoStarts⟩
      exact congrArg Option.some (unique inTable starts alsoInTable alsoStarts)
  | none =>
    have abbreviated (option : LongOption) :
        option ∈ longOptions.filter (first :: tail <+: ·.name) ↔
          option ∈ longOptions ∧ first :: tail <+: option.name := by simp
    rw [← abbreviated]
    cases matching : longOptions.filter (first :: tail <+: ·.name) with
    | nil => simp
    | cons head others =>
      have only (other : LongOption) (member : other ∈ head :: others) : other = head := by
        have one := (abbreviated other).mp (matching ▸ member)
        have two := (abbreviated head).mp (matching ▸ List.mem_cons_self)
        exact unique one.1 one.2 two.1 two.2
      have agree : ∀ other ∈ others, other.hasArg = head.hasArg ∧ other.val = head.val := by
        intro other member
        rw [only other (List.mem_cons_of_mem head member)]
        exact ⟨rfl, rfl⟩
      simp only [if_pos agree, Option.some.injEq]
      constructor
      · intro same
        exact same ▸ List.mem_cons_self
      · intro member
        exact (only option member).symm

/-- An argument in a bundle is the end of it. -/
theorem optarg_of_bundle {table : Table} {letters : Word} {val : Byte} {optarg : Word}
    (reported : .option val (some optarg) ∈ (readBundle table letters).events) :
    optarg <:+ letters := by
  induction letters with
  | nil => cases reported
  | cons letter rest ih =>
    rw [readBundle] at reported
    cases takes : shortTakes table.optstring letter with
    | none =>
      have later := ih (by simpa [takes] using reported)
      exact later.trans (List.suffix_cons letter rest)
    | some required =>
      cases required with
      | false =>
        have later := ih (by simpa [takes] using reported)
        exact later.trans (List.suffix_cons letter rest)
      | true =>
        simp only [takes] at reported
        split_ifs at reported
        · cases reported
        · simp only [List.mem_singleton, Event.option.injEq, Option.some.injEq] at reported
          exact reported.2 ▸ List.suffix_cons letter rest

/-- An argument after a name is the end of the text. -/
theorem optarg_of_name {table : Table} {text : Word} {val : Byte} {optarg : Word}
    (reported : .option val (some optarg) ∈ (readLong table text).events) : optarg <:+ text := by
  have valued := List.dropWhile_suffix (l := text) (fun byte => decide (byte ≠ equals))
  rw [readLong] at reported
  generalize text.dropWhile (· ≠ equals) = value at reported valued
  generalize lookupLong table.longOptions (text.takeWhile (· ≠ equals)) = found at reported
  cases found with
  | none => simp at reported
  | some option =>
    cases value with
    | nil =>
      simp only at reported
      split_ifs at reported <;> simp at reported
    | cons first rest =>
      simp only at reported
      split_ifs at reported
      · simp only [List.mem_singleton, Event.option.injEq, Option.some.injEq] at reported
        exact reported.2 ▸ (List.suffix_cons first rest).trans valued
      · simp at reported

/-- An argument in a word is the end of it. -/
theorem optarg_of_reading {table : Table} {word : Word} {reading : Reading}
    (read : readWord table word = .options reading) {val : Byte} {optarg : Word}
    (reported : .option val (some optarg) ∈ reading.events) : optarg <:+ word := by
  match word with
  | [] => cases read
  | [_] => cases read
  | first :: second :: text =>
    rw [readWord] at read
    split_ifs at read
    · obtain rfl := Kind.options.inj read
      exact (optarg_of_bundle reported).trans (List.suffix_cons first (second :: text))
    · obtain rfl := Kind.options.inj read
      have inText := (optarg_of_name reported).trans (List.suffix_cons second text)
      exact inText.trans (List.suffix_cons first (second :: text))

/-- The argument of an option is the end of one of the words. -/
theorem optarg_of_word (ordering : Ordering) (table : Table) (pending : Option Byte)
    (words : List Word) {val : Byte} {optarg : Word}
    (reported : .option val (some optarg) ∈ (scan ordering table pending words).events) :
    ∃ word ∈ words, optarg <:+ word := by
  induction words generalizing pending with
  | nil => cases pending <;> simp [scan] at reported
  | cons word rest ih =>
    have inRest (pending : Option Byte)
        (later : .option val (some optarg) ∈ (scan ordering table pending rest).events) :
        ∃ other ∈ word :: rest, optarg <:+ other := by
      obtain ⟨other, member, ends⟩ := ih pending later
      exact ⟨other, List.mem_cons_of_mem word member, ends⟩
    cases pending with
    | some taking =>
      simp only [scan, List.mem_cons, Event.option.injEq, Option.some.injEq] at reported
      cases reported with
      | inl own => exact ⟨word, List.mem_cons_self, own.2 ▸ List.suffix_rfl⟩
      | inr later => exact inRest none later
    | none =>
      cases read : readWord table word with
      | ending => simp [scan, read] at reported
      | operand =>
        cases ordering with
        | requireOrder => simp [scan, read] at reported
        | permute => exact inRest none (by simpa [scan, read] using reported)
      | options reading =>
        simp only [scan, read, List.mem_append] at reported
        cases reported with
        | inl own => exact ⟨word, List.mem_cons_self, optarg_of_reading read own⟩
        | inr later => exact inRest reading.pending later

end Getopt
