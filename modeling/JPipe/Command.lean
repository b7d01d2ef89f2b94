import JPipe.Errno
import Mathlib.Data.List.Basic

/-!
# Commands

`main` gives `jp_cmd_exec` its table of commands and, apart from it, the number
of entries; the command is looked up at one fixed position of the command line.
The global options are found by counting words over the whole command line, in
eight bits.

A word is the list of its bytes, and `argc` the length of the list of words. A
handler is any value here; the outcome of a lookup names the one invoked and the
words it is given, or the error raised.
-/

namespace JPipe

/-- `argv`. -/
abbrev Words := List (List Byte)

/-- `jp_conf_t`. -/
structure Conf where
  silent : Bool
  noColor : Bool
deriving DecidableEq, Repr

/-- `jp_cmd_t`. -/
structure Cmd (η : Type) where
  code : List Byte
  name : List Byte
  handler : η

/-- What `jp_cmd_exec` does. -/
inductive CmdOutcome (η : Type) where
  | invoked (handler : η) (argv : Words)
  | raised (err : Errno)
deriving DecidableEq, Repr

/-- `jp_cmd_count`. -/
def jpCmdCount (argv : Words) (cmdShort cmdLong : List Byte) : UInt8 :=
  argv.foldl (fun count word => if word = cmdShort ∨ word = cmdLong then count + 1 else count) 0

/-- `-q`. -/
def shortQuiet : List Byte := [0x2d, 0x71]

/-- `--quiet`. -/
def longQuiet : List Byte := [0x2d, 0x2d, 0x71, 0x75, 0x69, 0x65, 0x74]

/-- `-C`. -/
def shortNoColor : List Byte := [0x2d, 0x43]

/-- `--no-color`. -/
def longNoColor : List Byte := [0x2d, 0x2d, 0x6e, 0x6f, 0x2d, 0x63, 0x6f, 0x6c, 0x6f, 0x72]

/-- `init_global_flags`. -/
def initGlobalFlags (argv : Words) (conf : Conf) : Conf :=
  let conf := if jpCmdCount argv shortQuiet longQuiet > 0 then { conf with silent := true } else conf
  if jpCmdCount argv shortNoColor longNoColor > 0 then { conf with noColor := true } else conf

/-- The command of a word, by its code or its name. -/
def Cmd.Matches {η : Type} (cmd : Cmd η) (word : List Byte) : Prop :=
  word = cmd.code ∨ word = cmd.name

instance {η : Type} (cmd : Cmd η) (word : List Byte) : Decidable (cmd.Matches word) :=
  inferInstanceAs (Decidable (_ ∨ _))

/-- `jp_cmd_exec`, for a count of at most the entries of the table. -/
def jpCmdExec {η : Type} (cmdc : Nat) (cmds : List (Cmd η)) (argv : Words) (conf : Conf) :
    CmdOutcome η × Conf :=
  let conf := initGlobalFlags argv conf
  match argv with
  | _ :: word :: rest =>
    match (cmds.take cmdc).find? fun cmd => cmd.Matches word with
    | some cmd => (.invoked cmd.handler (word :: rest), conf)
    | none => (.raised .eunknownCmd, conf)
  | _ => (.raised .emissingCmd, conf)

/-- The handlers of the table. -/
inductive Handler where
  | jpWrkExec
  | jpCmdHelp
  | jpCmdVersion
deriving DecidableEq, Repr

/-- `run`. -/
def runWord : List Byte := [0x72, 0x75, 0x6e]

/-- `help`. -/
def helpWord : List Byte := [0x68, 0x65, 0x6c, 0x70]

/-- `version`. -/
def versionWord : List Byte := [0x76, 0x65, 0x72, 0x73, 0x69, 0x6f, 0x6e]

/-- `commands`. -/
def commands : List (Cmd Handler) := [
  { code := runWord, name := runWord, handler := .jpWrkExec },
  { code := helpWord, name := helpWord, handler := .jpCmdHelp },
  { code := versionWord, name := versionWord, handler := .jpCmdVersion }]

/-- The call `main` makes. -/
def mainCall (argv : Words) (conf : Conf) : CmdOutcome Handler × Conf :=
  jpCmdExec 2 commands argv conf

/-! ### The command line of the manual -/

/-- A global option. -/
def GlobalOption (word : List Byte) : Prop :=
  word ∈ [shortQuiet, longQuiet, shortNoColor, longNoColor]

/-- The call does with a command word what the table says. -/
structure Dispatches (command : List Byte) (outcome : CmdOutcome Handler) : Prop where
  invokes : ∀ cmd ∈ commands, cmd.Matches command → ∃ argv, outcome = .invoked cmd.handler argv
  unknown : outcome = .raised .eunknownCmd → ∀ cmd ∈ commands, ¬ cmd.Matches command

/-- No global option is the word of a command. -/
theorem global_option_unmatched {word : List Byte} (option : GlobalOption word) :
    ∀ cmd ∈ commands, ¬ cmd.Matches word := by
  have each : ∀ cmd ∈ commands,
      ∀ word ∈ [shortQuiet, longQuiet, shortNoColor, longNoColor], ¬ cmd.Matches word := by
    simp only [commands, List.forall_mem_cons]
    decide
  intro cmd member
  exact each cmd member word option

/-- The words of an entry are those of no entry with another handler. -/
theorem entry_words_apart : ∀ cmd ∈ commands, ∀ other ∈ commands,
    cmd.Matches other.code ∨ cmd.Matches other.name → cmd.handler = other.handler := by
  decide

/-- The entries a word matches have one handler. -/
theorem command_unique {command : List Byte} {cmd other : Cmd Handler} (member : cmd ∈ commands)
    (matched : cmd.Matches command) (inTable : other ∈ commands) (also : other.Matches command) :
    cmd.handler = other.handler := by
  have word : cmd.Matches other.code ∨ cmd.Matches other.name := by
    cases also with
    | inl code => exact Or.inl (code ▸ matched)
    | inr name => exact Or.inr (name ▸ matched)
  exact entry_words_apart cmd member other inTable word

/-- With a command at its place, the call invokes the entry found for it among
those `main` counts. -/
theorem main_call_command (program command : List Byte) (rest : Words) (conf : Conf) :
    (mainCall (program :: command :: rest) conf).1 =
      match (commands.take 2).find? fun cmd => cmd.Matches command with
      | some cmd => .invoked cmd.handler (command :: rest)
      | none => .raised .eunknownCmd := by
  rw [mainCall, jpCmdExec]
  cases (commands.take 2).find? fun cmd => cmd.Matches command with
  | some cmd => rfl
  | none => rfl

/-- An option in the place of the command is looked up as one. -/
theorem main_call_option {option : List Byte} (isOption : GlobalOption option)
    (program : List Byte) (rest : Words) (conf : Conf) :
    (mainCall (program :: option :: rest) conf).1 = .raised .eunknownCmd := by
  have unmatched : (commands.take 2).find? (fun cmd => cmd.Matches option) = none := by
    rw [List.find?_eq_none]
    intro cmd counted
    simpa using global_option_unmatched isOption cmd (List.mem_of_mem_take counted)
  rw [main_call_command, unmatched]

/-- The call `main` makes does with a command word what the table says exactly
when no entry has the word, or no option is before it and it is the word of one
of the first two entries. -/
theorem main_dispatches_iff (program : List Byte) (globals : Words) (command : List Byte)
    (rest : Words) (conf : Conf) (options : ∀ word ∈ globals, GlobalOption word) :
    Dispatches command (mainCall (program :: globals ++ command :: rest) conf).1 ↔
      (∀ cmd ∈ commands, ¬ cmd.Matches command) ∨
        globals = [] ∧ ∃ cmd ∈ commands.take 2, cmd.Matches command := by
  -- Where no entry is invoked, only an unknown word satisfies the table.
  have unknown : Dispatches command (.raised .eunknownCmd) ↔
      ∀ cmd ∈ commands, ¬ cmd.Matches command := by
    constructor
    · intro dispatched
      exact dispatched.unknown rfl
    · intro unmatched
      exact ⟨fun cmd member matched => absurd matched (unmatched cmd member),
        fun _ => unmatched⟩
  cases globals with
  | cons option others =>
    have isOption := options option List.mem_cons_self
    rw [List.cons_append, List.cons_append, main_call_option isOption, unknown]
    simp
  | nil =>
    rw [List.cons_append, List.nil_append, main_call_command]
    cases found : (commands.take 2).find? fun cmd => cmd.Matches command with
    | none =>
      have uncounted : ¬ ∃ cmd ∈ commands.take 2, cmd.Matches command := by
        intro ⟨cmd, counted, matched⟩
        simpa [matched] using List.find?_eq_none.mp found cmd counted
      rw [unknown]
      simp only [uncounted, and_false, or_false]
    | some cmd =>
      have counted := List.mem_of_find?_eq_some found
      have matched : cmd.Matches command := by simpa using List.find?_some found
      have member := List.mem_of_mem_take counted
      constructor
      · intro dispatched
        exact Or.inr ⟨rfl, cmd, counted, matched⟩
      · intro known
        constructor
        · intro other inTable also
          have same := command_unique member matched inTable also
          exact ⟨command :: rest, by rw [← same]⟩
        · intro raised
          cases raised

/-- `jpipe help` is dispatched. -/
theorem help_dispatched :
    Dispatches helpWord (mainCall [[0x6a], helpWord] { silent := false, noColor := false }).1 :=
  (main_dispatches_iff [0x6a] [] helpWord [] { silent := false, noColor := false } (by simp)).mpr
    (Or.inr ⟨rfl, by decide⟩)

/-- `jpipe -q run` and `jpipe version` have the words of entries and are refused. -/
theorem documented_commands_refused :
    (mainCall [[0x6a], shortQuiet, runWord] { silent := false, noColor := false }).1 =
        .raised .eunknownCmd ∧
      (mainCall [[0x6a], versionWord] { silent := false, noColor := false }).1 =
        .raised .eunknownCmd ∧
      ¬ Dispatches runWord
        (mainCall [[0x6a], shortQuiet, runWord] { silent := false, noColor := false }).1 ∧
      ¬ Dispatches versionWord
        (mainCall [[0x6a], versionWord] { silent := false, noColor := false }).1 := by
  have known : (∃ cmd ∈ commands, cmd.Matches runWord) ∧
      ∃ cmd ∈ commands, cmd.Matches versionWord := by decide
  obtain ⟨⟨run, inTable, isRun⟩, version, alsoInTable, isVersion⟩ := known
  refine ⟨by decide, by decide, ?_, ?_⟩
  · intro dispatched
    exact dispatched.unknown (by decide) run inTable isRun
  · intro dispatched
    exact dispatched.unknown (by decide) version alsoInTable isVersion

end JPipe
