import JPipe.Options

/-!
# A dry run

`jp_wrk_exec` collects the arguments, makes the output directory, creates the
queue and then, unless a dry run was asked for, starts the threads. That is the
only place where it looks at the flag of a dry run, so the directory has been
made by then.

The file system, the error of `jp_queue_create` and what the threads do are
parameters. There is no result where the path leaves its buffer.
-/

namespace JPipe

open Paths

universe u

variable {Tree : Type u}

/-- What a run finds outside of the source: the file system, the ordering of
`getopt_long` and the word its errors are shown with, the error of `jp_queue_create` for
these sizes and this policy, and what `orchestrate_threads` does and raises. -/
structure Environment (Tree : Type u) where
  fs : FileSystem Tree
  ordering : Getopt.Ordering
  pointed : Words → List Byte
  queueCreate : Nat → Nat → Policy → Errno
  orchestrateThreads : WorkerCtx → World Tree → Journal ErrnoCtx (Errno × World Tree)

namespace Calls

/-- `jp_queue_create`, with what else the caller goes on with: the allocation is freed
where a lock or a condition cannot be initialized. -/
def jpQueueCreate (env : Environment Tree) (ctx : WorkerCtx) (world : World Tree) :
    Call (Errno × WorkerCtx × World Tree) := do
  allocate .queue
  match env.queueCreate ctx.bufferSize ctx.chunkSize ctx.policy with
  | .ok => pure (.ok, ctx, world)
  | err =>
    release .queue
    pure (err, ctx, world)

/-- `finalize_worker_args`: what `jp_queue_create` raised is raised again without the
error of the system. -/
def finalizeWorkerArgs (env : Environment Tree) (ctx : WorkerCtx) (world : World Tree) :
    Call (Option (Errno × WorkerCtx × World Tree)) := do
  match ← createAndNormalizeOutDir env.fs ctx world with
  | none => pure none
  | some (.ok, ctx, world) =>
    match ← jpQueueCreate env ctx world with
    | (.ok, ctx, world) => pure (some (.ok, ctx, world))
    | (err, ctx, world) => some <$> raise workerFile 310 err (ctx, world)
  | some (err, ctx, world) => pure (some (err, ctx, world))

/-- The threads are started unless the run is dry. -/
def startThreads (env : Environment Tree) (ctx : WorkerCtx) (world : World Tree) :
    Call (Errno × World Tree) :=
  if ctx.dryRun then pure (.ok, world) else (env.orchestrateThreads ctx world).relabel .raised

/-- `clean_up` of `jp_wrk_exec`. -/
def cleanUp (ctx : WorkerCtx) : Call PUnit := do
  release .outDir
  jpFieldSetDestroy ctx.fields
  release .queue

/-- `jp_wrk_exec`. -/
def jpWrkExec (env : Environment Tree) (argv : Words) (world : World Tree) :
    Call (Option (Errno × World Tree)) :=
  if jpCmdCount argv shortHelp longHelp > 0 then pure (some (.ok, world))
  else
    let collected : Call (Errno × WorkerCtx) := do
      allocate .fieldSet
      collectCliArgs env.ordering (env.pointed argv) argv workerDefaults
    collected.bind fun
      | (.ok, ctx) => do
        match ← finalizeWorkerArgs env ctx world with
        | none => pure none
        | some (.ok, ctx, world) =>
          let ended ← startThreads env ctx world
          cleanUp ctx
          pure (some ended)
        | some (err, ctx, world) =>
          cleanUp ctx
          pure (some (err, world))
      | (err, ctx) => do
        cleanUp ctx
        pure (some (err, world))

end Calls

/-- What `finalize_worker_args` returns. -/
def finalizeWorkerArgs (env : Environment Tree) (ctx : WorkerCtx) (world : World Tree) :
    Option (Errno × WorkerCtx × World Tree) :=
  (Calls.finalizeWorkerArgs env ctx world).value

/-- What `jp_wrk_exec` returns. -/
def jpWrkExec (env : Environment Tree) (argv : Words) (world : World Tree) :
    Option (Errno × World Tree) :=
  (Calls.jpWrkExec env argv world).value

/-- The arguments are finalized by making the output directory and then the queue. -/
theorem finalize_eq (env : Environment Tree) (ctx : WorkerCtx) (world : World Tree) :
    finalizeWorkerArgs env ctx world =
      (createAndNormalizeOutDir env.fs ctx world).map fun
        | (.ok, ctx, world) => (env.queueCreate ctx.bufferSize ctx.chunkSize ctx.policy, ctx, world)
        | (err, ctx, world) => (err, ctx, world) := by
  rw [finalizeWorkerArgs, Calls.finalizeWorkerArgs, Journal.monad_bind, Journal.bind_value,
    createAndNormalizeOutDir]
  generalize (Calls.createAndNormalizeOutDir env.fs ctx world).value = made
  rcases made with _ | ⟨err, ctx, world⟩
  · rfl
  · cases err with
    | ok =>
      simp only [Calls.jpQueueCreate, Option.map_some]
      cases env.queueCreate ctx.bufferSize ctx.chunkSize ctx.policy <;> rfl
    | _ => rfl

/-- A run that is not for the help collects its arguments, finalizes them and starts the
threads, as far as it comes. -/
theorem wrk_exec_eq (env : Environment Tree) {argv : Words} (world : World Tree)
    (unhelped : ¬ jpCmdCount argv shortHelp longHelp > 0) :
    jpWrkExec env argv world =
      match collectCliArgs env.ordering argv workerDefaults with
      | (.ok, ctx) =>
        (finalizeWorkerArgs env ctx world).map fun
          | (.ok, ctx, world) =>
            if ctx.dryRun then (.ok, world) else (env.orchestrateThreads ctx world).value
          | (err, _, world) => (err, world)
      | (err, _) => some (err, world) := by
  rw [jpWrkExec, Calls.jpWrkExec, if_neg unhelped, ← collect_value env.ordering (env.pointed argv)]
  simp only [Journal.bind_value, Journal.monad_bind]
  generalize (Calls.collectCliArgs env.ordering (env.pointed argv) argv workerDefaults).value =
    collected
  obtain ⟨err, ctx⟩ := collected
  cases err with
  | ok =>
    simp only [Journal.bind_value, finalizeWorkerArgs]
    generalize (Calls.finalizeWorkerArgs env ctx world).value = finalized
    rcases finalized with _ | ⟨status, settled, after⟩
    · rfl
    · cases status with
      | ok =>
        simp only [Option.map_some, Calls.startThreads]
        split_ifs <;> rfl
      | _ => rfl
  | _ => rfl

/-! ### Making directories -/

/-- Making these directories in order creates one before any fails. -/
inductive Creates (fs : FileSystem Tree) (tree : Tree) : List Path → Prop where
  | here (path : Path) (rest : List Path) (after : Tree) (made : fs.mkdir tree path = .ok after) :
      Creates fs tree (path :: rest)
  | later (path : Path) (rest : List Path) (present : fs.mkdir tree path = .error .eexist)
      (creates : Creates fs tree rest) : Creates fs tree (path :: rest)

/-- Directories that are there stay. -/
theorem make_all_kept (fs : FileSystem Tree) (world : World Tree) (paths : List Path) {path : Path}
    (present : fs.isDirectory world.tree path = true) :
    fs.isDirectory (makeAll fs world paths).2.tree path = true := by
  induction paths generalizing world with
  | nil => exact present
  | cons first rest ih =>
    rw [makeAll, makeDir]
    cases outcome : fs.mkdir world.tree first with
    | ok after => exact ih _ (fs.kept world.tree first after outcome path present)
    | error err =>
      cases err with
      | eexist => exact ih _ present
      | other => exact present

/-- The tree stays as it was exactly when no directory is created. -/
theorem make_all_tree_iff (fs : FileSystem Tree) (world : World Tree) (paths : List Path) :
    (makeAll fs world paths).2.tree = world.tree ↔ ¬ Creates fs world.tree paths := by
  induction paths generalizing world with
  | nil => exact iff_of_true (by rw [makeAll]) (by intro creates; cases creates)
  | cons path rest ih =>
    rw [makeAll, makeDir]
    cases outcome : fs.mkdir world.tree path with
    | ok after =>
      obtain ⟨absent, present⟩ := fs.created world.tree path after outcome
      refine iff_of_false ?_ (not_not.mpr (Creates.here path rest after outcome))
      intro same
      have kept := make_all_kept fs ⟨after, world.made ++ [path]⟩ rest present
      simp only at same
      rw [same, absent] at kept
      cases kept
    | error err =>
      cases err with
      | eexist =>
        have later : Creates fs world.tree (path :: rest) ↔ Creates fs world.tree rest := by
          constructor
          · intro creates
            cases creates with
            | here _ _ after made => simp [outcome] at made
            | later _ _ _ creates => exact creates
          · exact Creates.later path rest outcome
        rw [later]
        exact ih ⟨world.tree, world.made ++ [path]⟩
      | other =>
        refine iff_of_true (by simp) ?_
        intro creates
        cases creates with
        | here _ _ after made => simp [outcome] at made
        | later _ _ present _ => simp [outcome] at present

/-- Where none is created, they are all there unless one fails. -/
theorem make_all_through_iff (fs : FileSystem Tree) (world : World Tree) (paths : List Path)
    (none : ¬ Creates fs world.tree paths) :
    (makeAll fs world paths).1 = true ↔
      ∀ path ∈ paths, fs.mkdir world.tree path ≠ .error .other := by
  induction paths generalizing world with
  | nil => simp [makeAll]
  | cons path rest ih =>
    rw [makeAll, makeDir]
    cases outcome : fs.mkdir world.tree path with
    | ok after => exact absurd (Creates.here path rest after outcome) none
    | error err =>
      cases err with
      | eexist =>
        have others : ¬ Creates fs world.tree rest :=
          fun creates => none (Creates.later path rest outcome creates)
        simpa [outcome] using ih ⟨world.tree, world.made ++ [path]⟩ others
      | other => simp [outcome]

/-- Going over the path creates no directory, and stays inside of its buffer. -/
structure Harmless (fs : FileSystem Tree) (tree : Tree) (path : Path) : Prop where
  nothing : ¬ Creates fs tree
    (if Unterminated path then ancestors (stripped path) else lineage (stripped path))
  inside : Unterminated path →
    ∃ above ∈ ancestors (stripped path), fs.mkdir tree above = .error .other

/-- A result has one world, and what is asked of the world is asked of that one. -/
theorem returned_world_iff {err : Errno} {settled : WorkerCtx} {after : World Tree}
    {ends : World Tree → Prop} :
    (∃ code ctx world, some (err, settled, after) = some (code, ctx, world) ∧ ends world) ↔
      ends after := by
  constructor
  · intro ⟨code, ctx, world, same, holds⟩
    simp only [Option.some.injEq, Prod.mk.injEq] at same
    exact same.2.2 ▸ holds
  · intro holds
    exact ⟨err, settled, after, rfl, holds⟩

/-- `create_and_normalize_out_dir` returns with the tree as it was exactly where
going over the path is harmless. -/
theorem create_out_dir_harmless_iff (fs : FileSystem Tree) (ctx : WorkerCtx) (world : World Tree)
    {path : Path} (selected : ctx.outDir.getD confOutdirDef = path) (some : path ≠ [])
    (noNul : 0 ∉ path) (fits : path.length ≤ pathMax) :
    (∃ err settled after, createAndNormalizeOutDir fs ctx world = .some (err, settled, after) ∧
      after.tree = world.tree) ↔ Harmless fs world.tree path := by
  by_cases full : Unterminated path
  · have outcome := create_out_dir_eq fs ctx world selected some noNul fits
    have same := make_all_tree_iff fs world (ancestors (stripped path))
    have through := make_all_through_iff fs world (ancestors (stripped path))
    have harmless : Harmless fs world.tree path ↔
        ¬ Creates fs world.tree (ancestors (stripped path)) ∧
          ∃ above ∈ ancestors (stripped path), fs.mkdir world.tree above = .error .other := by
      constructor
      · intro harmless
        exact ⟨by simpa only [if_pos full] using harmless.nothing, harmless.inside full⟩
      · intro ⟨nothing, inside⟩
        exact ⟨by rwa [if_pos full], fun _ => inside⟩
    generalize makeAll fs world (ancestors (stripped path)) = walked at outcome same through
    obtain ⟨made, after⟩ := walked
    rw [harmless, ← same, outcome]
    cases made with
    | false =>
      -- A directory failed, so the walk stopped before the end of the buffer.
      rw [returned_world_iff]
      constructor
      · intro unchanged
        exact ⟨unchanged, by simpa using through (same.mp unchanged)⟩
      · exact fun harmless => harmless.1
    | true =>
      -- All are there, so the walk went on to the end of the buffer and past it.
      simp only [if_pos full]
      refine iff_of_false ?_ ?_
      · intro ⟨_, _, _, wrong, _⟩
        cases wrong
      · intro ⟨unchanged, above, member, fails⟩
        exact absurd fails ((through (same.mp unchanged)).mp rfl above member)
  · obtain ⟨err, settled, outcome⟩ := create_out_dir_world fs ctx world selected some noNul fits full
    rw [outcome, returned_world_iff, make_all_tree_iff]
    constructor
    · intro nothing
      exact ⟨by rwa [if_neg full], fun wrong => absurd wrong full⟩
    · intro harmless
      simpa only [if_neg full] using harmless.nothing

/-! ### The whole run -/

/-- Making the output directory does not change the kind of the run. -/
theorem create_out_dir_dry_run {fs : FileSystem Tree} {ctx settled : WorkerCtx}
    {world after : World Tree} {err : Errno}
    (made : createAndNormalizeOutDir fs ctx world = some (err, settled, after)) :
    settled.dryRun = ctx.dryRun := by
  simp only [createAndNormalizeOutDir, Calls.createAndNormalizeOutDir] at made
  split at made
  · simp at made
  · split at made
    · simp at made
    · simp only [Journal.map_value, raisef_value, Option.some.injEq, Prod.mk.injEq] at made
      rw [made.2.1]
    · split at made
      · simp at made
      · rename_i walked _ _ path _
        obtain ⟨_, outDir, effect⟩ := settle_effect fs ctx path walked
        rw [Journal.map_value, Option.some.injEq, ← settleOutDir, effect] at made
        rw [← (Prod.mk.inj (Prod.mk.inj made).2).1]

/-- A dry run ends in the world in which the output directory was made. -/
theorem dry_run_world (env : Environment Tree) {argv : Words} (world : World Tree) {ctx : WorkerCtx}
    (unhelped : ¬ jpCmdCount argv shortHelp longHelp > 0)
    (collected : collectCliArgs env.ordering argv workerDefaults = (.ok, ctx))
    (dry : ctx.dryRun = true) :
    (jpWrkExec env argv world).map Prod.snd =
      (createAndNormalizeOutDir env.fs ctx world).map fun made => made.2.2 := by
  rw [wrk_exec_eq env world unhelped, collected]
  simp only [finalize_eq, Option.map_map]
  cases made : createAndNormalizeOutDir env.fs ctx world with
  | none => rfl
  | some outcome =>
    obtain ⟨err, settled, after⟩ := outcome
    have stillDry : settled.dryRun = true := (create_out_dir_dry_run made).trans dry
    cases err with
    | ok =>
      cases created : env.queueCreate settled.bufferSize settled.chunkSize settled.policy <;>
        simp [created, stillDry]
    | _ => rfl

/-- The run returns, with the tree as it was. -/
def LeavesTree (env : Environment Tree) (argv : Words) (world : World Tree) : Prop :=
  ∃ err after, jpWrkExec env argv world = some (err, after) ∧ after.tree = world.tree

/-- A run for which a dry run was asked returns with the tree as it was exactly
when it is a run for the help, or its arguments are refused, or going over its
output directory is harmless. -/
theorem dry_run_frame_iff (env : Environment Tree) (argv : Words) (world : World Tree)
    (texts : ∀ word ∈ argv, 0 ∉ word) (asked : DryRunAsked env.ordering argv) :
    LeavesTree env argv world ↔
      helpOption.exact argv % 256 ≠ 0 ∨
        (collectCliArgs env.ordering argv workerDefaults).1 ≠ .ok ∨
        Harmless env.fs world.tree (selectedOutDir env.ordering argv) := by
  have helped := cmd_count_pos_iff helpOption argv
  by_cases forHelp : jpCmdCount argv shortHelp longHelp > 0
  · refine iff_of_true ?_ (Or.inl (helped.mp forHelp))
    exact ⟨.ok, world, by rw [jpWrkExec, Calls.jpWrkExec, if_pos forHelp]; rfl, rfl⟩
  · have noHelp : ¬ helpOption.exact argv % 256 ≠ 0 := fun some => forHelp (helped.mpr some)
    by_cases accepted : (collectCliArgs env.ordering argv workerDefaults).1 = .ok
    · obtain ⟨ctx, collected⟩ := collected_of_accepted accepted
      obtain ⟨selected, dry⟩ := collected_settings collected
      obtain ⟨nonempty, noNul, fits⟩ := selected_out_dir_fits texts accepted
      have ends := dry_run_world env world forHelp collected (dry asked)
      have harmless := create_out_dir_harmless_iff env.fs ctx world selected nonempty noNul fits
      have returns : LeavesTree env argv world ↔
          Harmless env.fs world.tree (selectedOutDir env.ordering argv) := by
        rw [← harmless]
        constructor
        · intro ⟨err, after, returned, same⟩
          rw [returned] at ends
          obtain ⟨⟨made, settled, final⟩, outcome, isFinal⟩ := Option.map_eq_some_iff.mp ends.symm
          obtain rfl : final = after := isFinal
          exact ⟨made, settled, final, outcome, same⟩
        · intro ⟨made, settled, after, outcome, same⟩
          rw [outcome] at ends
          obtain ⟨⟨err, final⟩, returned, isFinal⟩ := Option.map_eq_some_iff.mp ends
          obtain rfl : final = after := isFinal
          exact ⟨err, final, returned, same⟩
      rw [returns]
      simp only [noHelp, accepted, ne_eq, not_true_eq_false, false_or]
    · refine iff_of_true ?_ (Or.inr (Or.inl accepted))
      rw [LeavesTree, wrk_exec_eq env world forHelp]
      generalize collectCliArgs env.ordering argv workerDefaults = collected at accepted
      obtain ⟨err, ctx⟩ := collected
      cases err with
      | ok => exact absurd (rfl) accepted
      | _ => exact ⟨_, world, rfl, rfl⟩

/-! ### A file system of directories -/

/-- A file system of the directories given, in which a directory can be made where
all above it are. -/
def directories : FileSystem (List Path) where
  mkdir tree path :=
    if path ∈ tree then .error .eexist
    else if ∀ above ∈ ancestors path, above ∈ tree then .ok (path :: tree)
    else .error .other
  isDirectory tree path := path ∈ tree
  writable _ _ := true
  realpath _ path := some path
  created tree path after made := by
    split_ifs at made with present
    obtain rfl := Except.ok.inj made
    simp [present]
  kept tree path after made other present := by
    split_ifs at made
    obtain rfl := Except.ok.inj made
    simpa using Or.inr (of_decide_eq_true present)

/-- A run on these directories whose queue is created and whose threads end well. -/
def plainEnvironment : Environment (List Path) where
  fs := directories
  ordering := .permute
  pointed _ := []
  queueCreate _ _ _ := .ok
  orchestrateThreads _ world := pure (.ok, world)

/-- `run -n` on the current directory, which is there, leaves the tree as it was. -/
theorem current_directory_frame :
    LeavesTree plainEnvironment [runWord, [0x2d, 0x6e]] ⟨[[0x2e]], []⟩ := by
  apply (dry_run_frame_iff plainEnvironment [runWord, [0x2d, 0x6e]] ⟨[[0x2e]], []⟩ (by decide)
    (by unfold DryRunAsked; decide)).mpr
  have selected : selectedOutDir plainEnvironment.ordering [runWord, [0x2d, 0x6e]] = [0x2e] := by
    decide
  rw [selected]
  refine Or.inr (Or.inr ⟨?_, fun full => absurd full (by decide)⟩)
  rw [if_neg (by decide)]
  exact (make_all_tree_iff directories ⟨[[0x2e]], []⟩ _).mp (by decide)

/-- `run -n -o a`. -/
def dryRunLine : Words := [runWord, [0x2d, 0x6e], [0x2d, 0x6f], [0x61]]

/-- `run -n -o a` asks for a dry run, and makes the directory `a`. -/
theorem dry_run_creates :
    DryRunAsked .permute dryRunLine ∧
      jpWrkExec plainEnvironment dryRunLine ⟨[[0x2e]], []⟩ =
        some (.ok, ⟨[[0x61], [0x2e]], [[0x61]]⟩) ∧
      ¬ LeavesTree plainEnvironment dryRunLine ⟨[[0x2e]], []⟩ := by
  have collected : collectCliArgs .permute dryRunLine workerDefaults =
      (.ok, { workerDefaults with dryRun := true, outDir := some [0x61] }) := by decide
  have made : createAndNormalizeOutDir directories
      { workerDefaults with dryRun := true, outDir := some [0x61] } ⟨[[0x2e]], []⟩ =
      some (.ok, { workerDefaults with dryRun := true, outDir := some [0x61] },
        ⟨[[0x61], [0x2e]], [[0x61]]⟩) := by
    have selected : (some [0x61] : Option Path).getD confOutdirDef = [0x61] := Option.getD_some
    rw [create_out_dir_eq directories _ _ selected (by decide) (by decide) (by decide)]
    rfl
  have returned : jpWrkExec plainEnvironment dryRunLine ⟨[[0x2e]], []⟩ =
      some (.ok, ⟨[[0x61], [0x2e]], [[0x61]]⟩) := by
    rw [wrk_exec_eq _ _ (by decide), plainEnvironment, collected]
    simp only [finalize_eq, made]
    rfl
  refine ⟨by unfold DryRunAsked; decide, returned, ?_⟩
  intro ⟨err, after, alsoReturned, same⟩
  rw [returned, Option.some.injEq, Prod.mk.injEq] at alsoReturned
  rw [← alsoReturned.2] at same
  exact absurd same (by decide)

end JPipe
