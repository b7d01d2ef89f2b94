import JPipe.Command
import JPipe.Getopt
import JPipe.OutputDir

/-!
# The options of `run`

`collect_cli_args` goes through the command line with `getopt_long` and gives each
option to the function that stores it. Three options it passes over, since they
are looked for before, by counting the words that are one of their two exact
spellings.

A word of an exact spelling may be the argument of another option or the name of
the program, an option may be spelled otherwise, and the count has eight bits.
These are the only ways in which the two scanners come to differ on an accepted
command line.
-/

namespace JPipe

open Getopt (dash)

/-- `":c:b:p:o:f:hnqC"`. -/
def optstring : List Byte :=
  [0x3a, 0x63, 0x3a, 0x62, 0x3a, 0x70, 0x3a, 0x6f, 0x3a, 0x66, 0x3a, 0x68, 0x6e, 0x71, 0x43]

/-- `long_options`: `chunk-size`, `buffer-size`, `policy`, `field`, `output`,
`help`, `dry-run`, `quiet` and `no-color`. -/
def longOptions : List Getopt.LongOption := [
  { name := [0x63, 0x68, 0x75, 0x6e, 0x6b, 0x2d, 0x73, 0x69, 0x7a, 0x65],
    hasArg := true, val := 0x63 },
  { name := [0x62, 0x75, 0x66, 0x66, 0x65, 0x72, 0x2d, 0x73, 0x69, 0x7a, 0x65],
    hasArg := true, val := 0x62 },
  { name := [0x70, 0x6f, 0x6c, 0x69, 0x63, 0x79], hasArg := true, val := 0x70 },
  { name := [0x66, 0x69, 0x65, 0x6c, 0x64], hasArg := true, val := 0x66 },
  { name := [0x6f, 0x75, 0x74, 0x70, 0x75, 0x74], hasArg := true, val := 0x6f },
  { name := [0x68, 0x65, 0x6c, 0x70], hasArg := false, val := 0x68 },
  { name := [0x64, 0x72, 0x79, 0x2d, 0x72, 0x75, 0x6e], hasArg := false, val := 0x6e },
  { name := [0x71, 0x75, 0x69, 0x65, 0x74], hasArg := false, val := 0x71 },
  { name := [0x6e, 0x6f, 0x2d, 0x63, 0x6f, 0x6c, 0x6f, 0x72], hasArg := false, val := 0x43 }]

/-- The options `collect_cli_args` gives to `getopt_long`. -/
def optionTable : Getopt.Table := { optstring, longOptions }

/-- What `getopt_long` finds in the arguments, from `optind = 1` on. -/
def optionScan (ordering : Getopt.Ordering) (argv : Words) : Getopt.Scan :=
  Getopt.scan ordering optionTable none (argv.drop 1)

namespace Calls

/-- `handle_unknown_argument`. -/
def handleUnknownArgument (cmd : List Byte) (ctx : WorkerCtx) : Call (Errno × WorkerCtx) :=
  raisef workerFile 197 .eunknownRunCmd (Quotation.command.shown cmd) ctx

/-- The body of the loop of `collect_cli_args`, for what `getopt_long` returned; where it
reports an error the word is shown that `optind` points to, or the last one. -/
def handleOption (pointed : List Byte) (event : Getopt.Event) (ctx : WorkerCtx) :
    Call (Errno × WorkerCtx) :=
  match event with
  | .missing => handleUnknownArgument pointed ctx
  | .unknown => handleUnknownArgument pointed ctx
  | .option val optarg =>
    if val = 0x63 then setChunkSize optarg ctx
    else if val = 0x62 then setBufferSize optarg ctx
    else if val = 0x70 then setPolicy optarg ctx
    else if val = 0x6f then setOutDir optarg ctx
    else if val = 0x6e then pure (.ok, { ctx with dryRun := true })
    else if val = 0x66 then setField optarg ctx
    else pure (.ok, ctx)

/-- The loop of `collect_cli_args`: an error returns from it. -/
def handleOptions (pointed : List Byte) :
    List Getopt.Event → WorkerCtx → Call (Errno × WorkerCtx)
  | [], ctx => pure (.ok, ctx)
  | event :: rest, ctx => do
    match ← handleOption pointed event ctx with
    | (.ok, ctx) => handleOptions pointed rest ctx
    | (err, ctx) => pure (err, ctx)

/-- `collect_cli_args`. -/
def collectCliArgs (ordering : Getopt.Ordering) (pointed : List Byte) (argv : Words)
    (ctx : WorkerCtx) : Call (Errno × WorkerCtx) := do
  let found := optionScan ordering argv
  match ← handleOptions pointed found.events ctx with
  | (.ok, ctx) =>
    match found.operands with
    | [] => pure (.ok, ctx)
    | word :: _ => handleUnknownArgument word ctx
  | (err, ctx) => pure (err, ctx)

end Calls

/-- What the loop of `collect_cli_args` goes on with, or returns. -/
def handleOption (event : Getopt.Event) (ctx : WorkerCtx) : Errno × WorkerCtx :=
  (Calls.handleOption [] event ctx).value

/-- What the loop of `collect_cli_args` ends with. -/
def handleOptions (events : List Getopt.Event) (ctx : WorkerCtx) : Errno × WorkerCtx :=
  (Calls.handleOptions [] events ctx).value

/-- What `collect_cli_args` returns. -/
def collectCliArgs (ordering : Getopt.Ordering) (argv : Words) (ctx : WorkerCtx) :
    Errno × WorkerCtx :=
  (Calls.collectCliArgs ordering [] argv ctx).value

/-- What an option does to the context does not depend on the word shown for an error. -/
theorem handle_option_value (pointed : List Byte) (event : Getopt.Event) (ctx : WorkerCtx) :
    (Calls.handleOption pointed event ctx).value = handleOption event ctx := by
  cases event <;> rfl

/-- The loop goes on after an option unless it is refused. -/
theorem handle_options_eq (event : Getopt.Event) (rest : List Getopt.Event) (ctx : WorkerCtx) :
    handleOptions (event :: rest) ctx =
      if (handleOption event ctx).1 = .ok then handleOptions rest (handleOption event ctx).2
      else handleOption event ctx := by
  rw [handleOptions, Calls.handleOptions, Journal.monad_bind, Journal.bind_value, handle_option_value]
  generalize handleOption event ctx = handled
  obtain ⟨err, next⟩ := handled
  cases err <;> rfl

/-- What the loop ends with does not depend on the word shown for an error. -/
theorem handle_options_value (pointed : List Byte) (events : List Getopt.Event)
    (ctx : WorkerCtx) :
    (Calls.handleOptions pointed events ctx).value = handleOptions events ctx := by
  induction events generalizing ctx with
  | nil => rfl
  | cons event rest ih =>
    rw [handle_options_eq, Calls.handleOptions, Journal.monad_bind, Journal.bind_value,
      handle_option_value]
    generalize handleOption event ctx = handled
    obtain ⟨err, next⟩ := handled
    cases err with
    | ok => exact ih next
    | _ => rfl

/-- What `collect_cli_args` returns does not depend on the word shown for an error. -/
theorem collect_value (ordering : Getopt.Ordering) (pointed : List Byte) (argv : Words)
    (ctx : WorkerCtx) :
    (Calls.collectCliArgs ordering pointed argv ctx).value = collectCliArgs ordering argv ctx := by
  rw [collectCliArgs, Calls.collectCliArgs, Calls.collectCliArgs, Journal.monad_bind,
    Journal.monad_bind, Journal.bind_value, Journal.bind_value, handle_options_value,
    handle_options_value]

/-- An argument list is accepted only when every option is handled, and no operand
is left. -/
theorem collect_ok_iff (ordering : Getopt.Ordering) (argv : Words) (ctx after : WorkerCtx) :
    collectCliArgs ordering argv ctx = (.ok, after) ↔
      handleOptions (optionScan ordering argv).events ctx = (.ok, after) ∧
        (optionScan ordering argv).operands = [] := by
  rw [collectCliArgs, Calls.collectCliArgs, Journal.monad_bind, Journal.bind_value,
    handle_options_value]
  generalize handleOptions (optionScan ordering argv).events ctx = handled
  obtain ⟨err, final⟩ := handled
  cases (optionScan ordering argv).operands with
  | nil => cases err <;> simp
  | cons word rest => cases err <;> simp [Calls.handleUnknownArgument]

/-- Accepted arguments leave a context. -/
theorem collected_of_accepted {ordering : Getopt.Ordering} {argv : Words} {ctx : WorkerCtx}
    (accepted : (collectCliArgs ordering argv ctx).1 = .ok) :
    ∃ after, collectCliArgs ordering argv ctx = (.ok, after) :=
  ⟨(collectCliArgs ordering argv ctx).2, Prod.ext accepted rfl⟩

/-- A loop that reaches the end of its options handled each of them. -/
theorem handle_options_cons (event : Getopt.Event) (rest : List Getopt.Event)
    (ctx after : WorkerCtx) :
    handleOptions (event :: rest) ctx = (.ok, after) ↔
      ∃ next, handleOption event ctx = (.ok, next) ∧ handleOptions rest next = (.ok, after) := by
  rw [handle_options_eq]
  generalize handleOption event ctx = handled
  obtain ⟨err, next⟩ := handled
  cases err <;> simp

/-- An error that `getopt_long` reports is not passed over. -/
theorem handled_options {events : List Getopt.Event} {ctx after : WorkerCtx}
    (handled : handleOptions events ctx = (.ok, after)) :
    .unknown ∉ events ∧ .missing ∉ events := by
  induction events generalizing ctx with
  | nil => simp
  | cons event rest ih =>
    obtain ⟨next, first, others⟩ := (handle_options_cons event rest ctx after).mp handled
    obtain ⟨known, complete⟩ := ih others
    have own : event ≠ .unknown ∧ event ≠ .missing := by
      constructor
      · intro same
        rw [same] at first
        cases first
      · intro same
        rw [same] at first
        cases first
    simp only [List.mem_cons, not_or]
    exact ⟨⟨own.1.symm, known⟩, own.2.symm, complete⟩

/-- The options of accepted arguments are found without an error. -/
theorem accepted_clean {ordering : Getopt.Ordering} {argv : Words} {ctx : WorkerCtx}
    (accepted : (collectCliArgs ordering argv ctx).1 = .ok) : (optionScan ordering argv).Clean := by
  obtain ⟨after, collected⟩ := collected_of_accepted accepted
  obtain ⟨handled, finished⟩ := (collect_ok_iff _ _ _ _).mp collected
  obtain ⟨known, complete⟩ := handled_options handled
  exact ⟨known, complete, finished⟩

/-! ### What the options set -/

/-- The argument of an option for the output directory. -/
def outputArgument : Getopt.Event → Option (List Byte)
  | .option val optarg => if val = 0x6f then optarg else none
  | _ => none

/-- The output directory and the kind of run after an option, or after several. -/
structure RunSettings (output : List (List Byte)) (dry : Prop) (ctx after : WorkerCtx) : Prop where
  outDir : after.outDir = output.getLast?.or ctx.outDir
  usable : ∀ path ∈ output, path ≠ [] ∧ path.length ≤ pathMax
  dryRun : dry ∨ ctx.dryRun = true → after.dryRun = true

/-- Every other option leaves both as they were. -/
theorem handle_option_frame {val : Byte} (notOutput : val ≠ 0x6f) (notDry : val ≠ 0x6e)
    (optarg : Option (List Byte)) (ctx : WorkerCtx) :
    SameRun ctx (handleOption (.option val optarg) ctx).2 := by
  rw [handleOption, Calls.handleOption]
  simp only [notOutput, notDry, ↓reduceIte]
  split_ifs
  · exact set_chunk_size_frame optarg ctx
  · exact set_buffer_size_frame optarg ctx
  · exact set_policy_frame optarg ctx
  · exact set_field_frame optarg ctx
  · exact ⟨rfl, rfl⟩

/-- What one option sets. -/
theorem handle_option_settings {event : Getopt.Event} {ctx after : WorkerCtx}
    (handled : handleOption event ctx = (.ok, after)) :
    RunSettings (outputArgument event).toList (event = .option 0x6e none) ctx after := by
  cases event with
  | missing => cases handled
  | unknown => cases handled
  | option val optarg =>
    by_cases isOutput : val = 0x6f
    · have set : setOutDir optarg ctx = (.ok, after) := by
        subst isOutput
        exact handled
      cases optarg with
      | none => cases set
      | some path =>
        have usable := (set_out_dir_ok_iff path ctx).mp (congrArg Prod.fst set)
        have stored : after = { ctx with outDir := some path } := by
          rw [set_out_dir_eq, if_pos usable] at set
          exact (congrArg Prod.snd set).symm
        constructor
        · simp [outputArgument, isOutput, stored]
        · simpa [outputArgument, isOutput] using usable
        · simp [stored, isOutput]
    · have output : outputArgument (.option val optarg) = none := if_neg isOutput
      by_cases isDry : val = 0x6e
      · have set : ctx.outDir = after.outDir ∧ after.dryRun = true := by
          have same : { ctx with dryRun := true } = after := by
            simpa [handleOption, Calls.handleOption, isDry] using handled
          rw [← same]
          exact ⟨rfl, rfl⟩
        constructor
        · simp [output, set.1]
        · simp [output]
        · exact fun _ => set.2
      · have same := handle_option_frame isOutput isDry optarg ctx
        rw [handled] at same
        constructor
        · simpa [output] using same.outDir
        · simp [output]
        · intro earlier
          exact same.dryRun ▸ earlier.resolve_left (by simp [isDry])

/-- What the options of a loop set: the last output directory counts. -/
theorem handle_options_settings {events : List Getopt.Event} {ctx after : WorkerCtx}
    (handled : handleOptions events ctx = (.ok, after)) :
    RunSettings (events.filterMap outputArgument) (.option 0x6e none ∈ events) ctx after := by
  induction events generalizing ctx with
  | nil =>
    obtain rfl : ctx = after := congrArg Prod.snd handled
    constructor <;> simp
  | cons event rest ih =>
    obtain ⟨next, first, others⟩ := (handle_options_cons event rest ctx after).mp handled
    have own := handle_option_settings first
    have later := ih others
    have outputs : (event :: rest).filterMap outputArgument =
        (outputArgument event).toList ++ rest.filterMap outputArgument := by
      cases output : outputArgument event <;> simp [output]
    constructor
    · rw [later.outDir, own.outDir, outputs, List.getLast?_append, Option.or_assoc]
    · rw [outputs]
      intro path member
      cases List.mem_append.mp member with
      | inl here => exact own.usable path here
      | inr inRest => exact later.usable path inRest
    · intro earlier
      apply later.dryRun
      rw [List.mem_cons, or_assoc] at earlier
      cases earlier with
      | inl here => exact Or.inr (own.dryRun (Or.inl here.symm))
      | inr others => exact others.imp_right fun before => own.dryRun (Or.inr before)

/-- The output directory of the arguments: the last one given, or the default. -/
def selectedOutDir (ordering : Getopt.Ordering) (argv : Words) : List Byte :=
  ((optionScan ordering argv).events.filterMap outputArgument).getLast?.getD confOutdirDef

/-- The arguments ask for a dry run. -/
def DryRunAsked (ordering : Getopt.Ordering) (argv : Words) : Prop :=
  .option 0x6e none ∈ (optionScan ordering argv).events

/-- The output directory and the kind of run of accepted arguments. -/
theorem collected_settings {ordering : Getopt.Ordering} {argv : Words} {after : WorkerCtx}
    (collected : collectCliArgs ordering argv workerDefaults = (.ok, after)) :
    after.outDir.getD confOutdirDef = selectedOutDir ordering argv ∧
      (DryRunAsked ordering argv → after.dryRun = true) := by
  obtain ⟨handled, _⟩ := (collect_ok_iff _ _ _ _).mp collected
  have settings := handle_options_settings handled
  constructor
  · have unset : workerDefaults.outDir = none := by decide
    rw [settings.outDir, unset, Option.or_none, selectedOutDir]
  · exact fun asked => settings.dryRun (Or.inl asked)

/-- The output directory of accepted arguments is a path that fits its buffer. -/
theorem selected_out_dir_fits {ordering : Getopt.Ordering} {argv : Words}
    (texts : ∀ word ∈ argv, 0 ∉ word)
    (accepted : (collectCliArgs ordering argv workerDefaults).1 = .ok) :
    selectedOutDir ordering argv ≠ [] ∧ 0 ∉ selectedOutDir ordering argv ∧
      (selectedOutDir ordering argv).length ≤ pathMax := by
  obtain ⟨after, collected⟩ := collected_of_accepted accepted
  obtain ⟨handled, _⟩ := (collect_ok_iff _ _ _ _).mp collected
  have settings := handle_options_settings handled
  rw [selectedOutDir]
  cases last : ((optionScan ordering argv).events.filterMap outputArgument).getLast? with
  | none => decide
  | some path =>
    have member := List.mem_of_getLast? last
    obtain ⟨nonempty, fits⟩ := settings.usable path member
    obtain ⟨event, reported, isOutput⟩ := List.mem_filterMap.mp member
    cases event with
    | missing => cases isOutput
    | unknown => cases isOutput
    | option val optarg =>
      rw [outputArgument] at isOutput
      split_ifs at isOutput
      obtain ⟨word, inArgv, ends⟩ :=
        Getopt.optarg_of_word ordering optionTable none (argv.drop 1) (isOutput ▸ reported)
      have noNul : 0 ∉ path := fun nul => texts word (List.mem_of_mem_drop inArgv) (ends.subset nul)
      exact ⟨nonempty, noNul, fits⟩

/-! ### The options counted before -/

/-- `-h`. -/
def shortHelp : List Byte := [0x2d, 0x68]

/-- `--help`. -/
def longHelp : List Byte := [0x2d, 0x2d, 0x68, 0x65, 0x6c, 0x70]

/-- An option that is looked for by `jp_cmd_count`. -/
structure CountedOption where
  letter : Byte
  cmdShort : List Byte
  cmdLong : List Byte
deriving DecidableEq, Repr

/-- The call of `jp_wrk_exec`. -/
def helpOption : CountedOption := { letter := 0x68, cmdShort := shortHelp, cmdLong := longHelp }

/-- The first call of `init_global_flags`. -/
def quietOption : CountedOption := { letter := 0x71, cmdShort := shortQuiet, cmdLong := longQuiet }

/-- The second call of `init_global_flags`. -/
def noColorOption : CountedOption :=
  { letter := 0x43, cmdShort := shortNoColor, cmdLong := longNoColor }

/-- The three options the loop passes over. -/
def countedOptions : List CountedOption := [helpOption, quietOption, noColorOption]

/-- The loop of `collect_cli_args` meets the option. -/
def CountedOption.Met (counted : CountedOption) (ordering : Getopt.Ordering) (argv : Words) : Prop :=
  .option counted.letter none ∈ (optionScan ordering argv).events

/-- The letters of the options without an argument. -/
def flagLetters : List Byte := [0x68, 0x6e, 0x71, 0x43]

/-- A word spells the option: its letter after letters of options without an
argument, or a start of its long spelling. -/
inductive CountedOption.Spelled (counted : CountedOption) : List Byte → Prop where
  | short (front back : List Byte) (flags : ∀ flag ∈ front, flag ∈ flagLetters) :
      counted.Spelled (dash :: (front ++ counted.letter :: back))
  | long (name : List Byte) (some : name ≠ []) (starts : dash :: dash :: name <+: counted.cmdLong) :
      counted.Spelled (dash :: dash :: name)

/-- One of the words in the place of an option spells this one. -/
def CountedOption.SpelledIn (counted : CountedOption) (argv : Words) : Prop :=
  ∃ word ∈ Getopt.optionWords optionTable false (argv.drop 1), counted.Spelled word

/-- The number of words with one of the two exact spellings. -/
def CountedOption.exact (counted : CountedOption) (line : Words) : Nat :=
  line.countP fun word => word = counted.cmdShort ∨ word = counted.cmdLong

/-- The ways in which a command line `line` with the arguments `argv` misleads
the two scanners: the option is given in other spellings only, words of its exact
spelling are no options, or 256 of them are counted as none. -/
inductive CountedOption.Misleads (counted : CountedOption) (line argv : Words) : Prop where
  | hidden (spelled : counted.SpelledIn argv) (none : counted.exact line = 0)
  | mistaken (unspelled : ¬ counted.SpelledIn argv) (some : counted.exact line % 256 ≠ 0)
  | wrapped (spelled : counted.SpelledIn argv) (some : 0 < counted.exact line)
      (wraps : counted.exact line % 256 = 0)

/-- The letters of the option string that `getopt_long` takes for flags. -/
theorem flag_letter_iff (letter : Byte) :
    Getopt.shortTakes optstring letter = some false ↔ letter ∈ flagLetters := by
  have listed : optstring.all (fun letter =>
      Getopt.shortTakes optstring letter = some false ↔ letter ∈ flagLetters) = true := by decide
  have inString : flagLetters.all (· ∈ optstring) = true := by decide
  simp only [List.all_eq_true, decide_eq_true_eq] at listed inString
  constructor
  · intro takes
    exact (listed letter (Getopt.short_takes_listed takes)).mp takes
  · intro member
    exact (listed letter (inString letter member)).mpr member

/-- The long option with the letter of a counted one is a flag with its name. -/
theorem counted_long_option : ∀ counted ∈ countedOptions,
    counted.letter ∈ flagLetters ∧
    (∃ option ∈ longOptions, option.val = counted.letter) ∧
    ∀ option ∈ longOptions, option.val = counted.letter →
      option.hasArg = false ∧ counted.cmdLong = dash :: dash :: option.name ∧
        Getopt.equals ∉ option.name := by
  simp only [countedOptions, List.forall_mem_cons]
  decide

/-- The words that spell the option to `getopt_long`. -/
theorem spells_flag_iff {counted : CountedOption} (member : counted ∈ countedOptions)
    (word : List Byte) :
    Getopt.SpellsFlag optionTable counted.letter word ↔ counted.Spelled word := by
  obtain ⟨isFlag, ⟨option, inTable, isCounted⟩, facts⟩ := counted_long_option counted member
  obtain ⟨required, named, unvalued⟩ := facts option inTable isCounted
  have apart : (longOptions.map fun option => option.name.head?).Nodup := by decide
  constructor
  · intro spells
    cases spells with
    | short letters single among =>
      obtain ⟨front, back, rfl, flags⟩ := among
      apply CountedOption.Spelled.short
      intro flag inFront
      exact (flag_letter_iff flag).mp (flags flag (List.mem_append_left _ inFront))
    | long name some flagNamed =>
      obtain ⟨_, other, found, sameVal, _⟩ := flagNamed
      obtain ⟨alsoInTable, starts⟩ := (Getopt.lookup_long_iff apart some other).mp found
      apply CountedOption.Spelled.long name some
      rw [(facts other alsoInTable sameVal).2.1]
      simpa using starts
  · intro spelled
    cases spelled with
    | short front back flags =>
      have among : Getopt.FlagAmong optionTable counted.letter (front ++ counted.letter :: back) := by
        refine ⟨front, back, rfl, ?_⟩
        intro flag inFront
        apply (flag_letter_iff flag).mpr
        cases List.mem_append.mp inFront with
        | inl earlier => exact flags flag earlier
        | inr own => exact List.mem_singleton.mp own ▸ isFlag
      apply Getopt.SpellsFlag.short _ _ among
      have notFlag : dash ∉ flagLetters := by decide
      cases front with
      | nil => simpa using ne_of_mem_of_not_mem isFlag notFlag
      | cons first others => simpa using ne_of_mem_of_not_mem (flags first List.mem_cons_self) notFlag
    | long name some starts =>
      rw [named] at starts
      have starts : name <+: option.name := by simpa using starts
      have found := (Getopt.lookup_long_iff apart some option).mpr ⟨inTable, starts⟩
      have plain : Getopt.equals ∉ name := fun member => unvalued (starts.subset member)
      exact Getopt.SpellsFlag.long name some ⟨plain, option, found, isCounted, required⟩

/-- `jp_cmd_count` counts the words modulo 256. -/
theorem cmd_count_eq (counted : CountedOption) (line : Words) :
    (jpCmdCount line counted.cmdShort counted.cmdLong).toNat = counted.exact line % 256 := by
  have counting (count : UInt8) :
      (line.foldl (fun count word =>
        if word = counted.cmdShort ∨ word = counted.cmdLong then count + 1 else count) count).toNat =
        (count.toNat + counted.exact line) % 256 := by
    induction line generalizing count with
    | nil =>
      have bound := count.toNat_lt
      simp only [List.foldl_nil, CountedOption.exact, List.countP_nil]
      omega
    | cons word rest ih =>
      rw [List.foldl_cons, ih]
      have counts : counted.exact (word :: rest) = counted.exact rest +
          if word = counted.cmdShort ∨ word = counted.cmdLong then 1 else 0 := by
        simp [CountedOption.exact, List.countP_cons]
      rw [counts]
      by_cases exact : word = counted.cmdShort ∨ word = counted.cmdLong
      · have next : (count + 1).toNat = (count.toNat + 1) % 256 := by
          rw [UInt8.toNat_add, UInt8.toNat_one]
        simp only [exact, ↓reduceIte, next]
        omega
      · simp [exact]
  have start := counting 0
  rwa [UInt8.toNat_zero, Nat.zero_add] at start

/-- The count is positive unless 256 divides the number of words. -/
theorem cmd_count_pos_iff (counted : CountedOption) (line : Words) :
    jpCmdCount line counted.cmdShort counted.cmdLong > 0 ↔ counted.exact line % 256 ≠ 0 := by
  rw [gt_iff_lt, UInt8.lt_iff_toNat_lt, cmd_count_eq, UInt8.toNat_zero, Nat.pos_iff_ne_zero]

/-- In accepted arguments the loop meets an option that one of them spells. -/
theorem met_iff_spelled {ordering : Getopt.Ordering} {counted : CountedOption}
    (member : counted ∈ countedOptions) {argv : Words} {ctx : WorkerCtx}
    (accepted : (collectCliArgs ordering argv ctx).1 = .ok) :
    counted.Met ordering argv ↔ counted.SpelledIn argv := by
  have met := Getopt.flag_met_iff ordering optionTable counted.letter none (argv.drop 1)
    (accepted_clean accepted)
  simpa only [CountedOption.Met, CountedOption.SpelledIn, optionScan, Option.isSome_none,
    spells_flag_iff member] using met

/-- For every accepted argument list, and every command line that ends with it,
the loop meets a counted option exactly when the count is positive unless the
line misleads the two. -/
theorem scanners_agree_iff (ordering : Getopt.Ordering) {counted : CountedOption}
    (member : counted ∈ countedOptions) (before argv : Words) (ctx : WorkerCtx)
    (accepted : (collectCliArgs ordering argv ctx).1 = .ok) :
    (counted.Met ordering argv ↔
        jpCmdCount (before ++ argv) counted.cmdShort counted.cmdLong > 0) ↔
      ¬ counted.Misleads (before ++ argv) argv := by
  rw [met_iff_spelled member accepted, cmd_count_pos_iff]
  constructor
  · intro agree misleads
    cases misleads with
    | hidden spelled none => exact agree.mp spelled (by rw [none])
    | mistaken unspelled some => exact unspelled (agree.mpr some)
    | wrapped spelled _ wraps => exact agree.mp spelled wraps
  · intro straight
    constructor
    · intro spelled wraps
      by_cases none : counted.exact (before ++ argv) = 0
      · exact straight (.hidden spelled none)
      · exact straight (.wrapped spelled (Nat.pos_of_ne_zero none) wraps)
    · intro some
      by_contra unspelled
      exact straight (.mistaken unspelled some)

/-- The two agree on the help of `run -h`, a line of one exact spelling. -/
theorem help_scanners_agree :
    helpOption.Met .permute [runWord, shortHelp] ↔
      jpCmdCount ([] ++ [runWord, shortHelp]) shortHelp longHelp > 0 := by
  apply (scanners_agree_iff .permute (by decide : helpOption ∈ countedOptions) []
    [runWord, shortHelp] workerDefaults (by decide)).mpr
  intro misleads
  cases misleads with
  | hidden _ none => exact absurd none (by decide)
  | mistaken unspelled _ =>
    apply unspelled
    exact ⟨shortHelp, by decide, .short [] [] (by simp)⟩
  | wrapped _ _ wraps => exact absurd wraps (by decide)

/-- `run -nh` and `run --hel` are accepted with an option for help and no count of
it; `run -o -h` is accepted with a count and no such option; and the count of 256
times `-h` is zero. -/
theorem scanners_disagree :
    ((collectCliArgs .permute [runWord, [0x2d, 0x6e, 0x68]] workerDefaults).1 = .ok ∧
      helpOption.Met .permute [runWord, [0x2d, 0x6e, 0x68]] ∧
      ¬ jpCmdCount [runWord, [0x2d, 0x6e, 0x68]] shortHelp longHelp > 0) ∧
    ((collectCliArgs .permute [runWord, [0x2d, 0x2d, 0x68, 0x65, 0x6c]] workerDefaults).1 = .ok ∧
      helpOption.Met .permute [runWord, [0x2d, 0x2d, 0x68, 0x65, 0x6c]] ∧
      ¬ jpCmdCount [runWord, [0x2d, 0x2d, 0x68, 0x65, 0x6c]] shortHelp longHelp > 0) ∧
    ((collectCliArgs .permute [runWord, [0x2d, 0x6f], shortHelp] workerDefaults).1 = .ok ∧
      ¬ helpOption.Met .permute [runWord, [0x2d, 0x6f], shortHelp] ∧
      jpCmdCount [runWord, [0x2d, 0x6f], shortHelp] shortHelp longHelp > 0) ∧
    ((collectCliArgs .permute (runWord :: List.replicate 256 shortHelp) workerDefaults).1 = .ok ∧
      helpOption.Met .permute (runWord :: List.replicate 256 shortHelp) ∧
      ¬ jpCmdCount (runWord :: List.replicate 256 shortHelp) shortHelp longHelp > 0) := by
  simp only [CountedOption.Met]
  exact ⟨by decide, by decide, by decide, by decide +kernel⟩

end JPipe
