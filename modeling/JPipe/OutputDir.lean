import JPipe.Paths
import JPipe.Settings

/-!
# The output directory

`create_and_normalize_out_dir` copies the path into a buffer of `JP_PATH_MAX`
bytes, cuts the slashes at its end, and walks through the buffer making each
directory on the way: at a slash it puts a NUL, calls `mkdir` on what is before
it and puts the slash back. The walk ends at a NUL, and only such a byte ends it.

Every access to the buffer is checked, and one outside of it has no result. The
file system is a parameter: whatever tree it keeps, a `mkdir` that succeeds makes
a directory of what was none and keeps the others, and nothing else the source
calls changes the tree. The paths `mkdir` was called on are recorded with it.
-/

namespace JPipe

open Paths

universe u

/-- `JP_CONF_OUTDIR_DEF`. -/
def confOutdirDef : Path := [0x2e]

/-- The errors of `mkdir` the source tells apart. -/
inductive MkdirError where
  | eexist
  | other
deriving DecidableEq, Repr

/-- The calls of the source on a file system: `mkdir`, `stat` with its test for a
directory, `access` for writing, and `realpath`. -/
structure FileSystem (Tree : Type u) where
  mkdir : Tree → Path → Except MkdirError Tree
  isDirectory : Tree → Path → Bool
  writable : Tree → Path → Bool
  realpath : Tree → Path → Option Path
  created : ∀ tree path after, mkdir tree path = .ok after →
    isDirectory tree path = false ∧ isDirectory after path = true
  kept : ∀ tree path after, mkdir tree path = .ok after →
    ∀ other, isDirectory tree other = true → isDirectory after other = true

/-- A tree, and the paths `mkdir` was called on. -/
structure World (Tree : Type u) where
  tree : Tree
  made : List Path

variable {Tree : Type u}

/-- `mkdir(path, 0755) == 0 || errno == EEXIST`. -/
def makeDir (fs : FileSystem Tree) (world : World Tree) (path : Path) : Bool × World Tree :=
  match fs.mkdir world.tree path with
  | .ok tree => (true, ⟨tree, world.made ++ [path]⟩)
  | .error .eexist => (true, ⟨world.tree, world.made ++ [path]⟩)
  | .error .other => (false, ⟨world.tree, world.made ++ [path]⟩)

/-- `strncpy` into a buffer of this size. -/
def strncpy (text : List Byte) (size : Nat) : List Byte :=
  text.take size ++ List.replicate (size - text.length) 0

/-- The text in a buffer up to its first NUL. -/
def cString (tmp : List Byte) : Option Path :=
  (tmp.findIdx? (· == 0)).map fun length => tmp.take length

/-- The loop that cuts the slashes at the end of the copied path. -/
def trimSlashes : List Byte → Nat → Option (List Byte)
  | tmp, 0 => some tmp
  | tmp, 1 => some tmp
  | tmp, pathLen + 2 =>
    match tmp[pathLen + 1]? with
    | none => none
    | some byte =>
      if byte = slash then trimSlashes (tmp.set (pathLen + 1) 0) (pathLen + 1) else some tmp

/-- The loop over the slashes of the path; its answer is false when a directory
could not be made. -/
def walkSlashes (fs : FileSystem Tree) (tmp : List Byte) (p : Nat) (world : World Tree) :
    Option (Bool × World Tree) :=
  if inside : p < tmp.length then
    if tmp[p] = 0 then some (true, world)
    else if tmp[p] = slash then
      let cut := tmp.set p 0
      match cString cut with
      | none => none
      | some path =>
        match makeDir fs world path with
        | (true, world) => walkSlashes fs (cut.set p slash) (p + 1) world
        | (false, world) => some (false, world)
    else walkSlashes fs tmp (p + 1) world
  else none
termination_by tmp.length - p
decreasing_by
  · simp only [List.length_set]
    omega
  · omega

namespace Calls

/-- What `create_and_normalize_out_dir` does after the walk: the last directory
is made and tested, and its absolute path kept. -/
def settleOutDir (fs : FileSystem Tree) (ctx : WorkerCtx) (path : Path) (world : World Tree) :
    Call (Errno × WorkerCtx × World Tree) :=
  match makeDir fs world path with
  | (false, world) => raisef workerFile 226 .eoutDir (Quotation.create.shown path) (ctx, world)
  | (true, world) =>
    if !fs.isDirectory world.tree path then
      raisef workerFile 230 .eoutDir (Quotation.notDirectory.shown path) (ctx, world)
    else if !fs.writable world.tree path then
      raisef workerFile 234 .eoutDir (Quotation.inaccessible.shown path) (ctx, world)
    else
      match fs.realpath world.tree path with
      | none => raisef workerFile 238 .eoutDir (Quotation.unresolved.shown path) (ctx, world)
      | some absolute => do
        release .outDir
        allocate .outDir
        pure (.ok, { ctx with outDir := some absolute }, world)

/-- `create_and_normalize_out_dir`: the status, the context and the world after it; no
result when it leaves its buffer. Where the walk stops the buffer holds the path that
`mkdir` was last called on. -/
def createAndNormalizeOutDir (fs : FileSystem Tree) (ctx : WorkerCtx) (world : World Tree) :
    Call (Option (Errno × WorkerCtx × World Tree)) :=
  let output := ctx.outDir.getD confOutdirDef
  match trimSlashes (strncpy output pathMax) output.length with
  | none => pure none
  | some tmp =>
    match walkSlashes fs tmp 1 world with
    | none => pure none
    | some (false, world) =>
      let stopped := world.made.getLast?.getD []
      some <$> raisef workerFile 219 .eoutDir (Quotation.createAbove.shown stopped) (ctx, world)
    | some (true, world) =>
      match cString tmp with
      | none => pure none
      | some path => some <$> settleOutDir fs ctx path world

end Calls

/-- What `create_and_normalize_out_dir` returns after the walk. -/
def settleOutDir (fs : FileSystem Tree) (ctx : WorkerCtx) (path : Path) (world : World Tree) :
    Errno × WorkerCtx × World Tree :=
  (Calls.settleOutDir fs ctx path world).value

/-- What `create_and_normalize_out_dir` returns. -/
def createAndNormalizeOutDir (fs : FileSystem Tree) (ctx : WorkerCtx) (world : World Tree) :
    Option (Errno × WorkerCtx × World Tree) :=
  (Calls.createAndNormalizeOutDir fs ctx world).value

/-- Make directories in order as long as it is possible. -/
def makeAll (fs : FileSystem Tree) (world : World Tree) : List Path → Bool × World Tree
  | [] => (true, world)
  | path :: rest =>
    match makeDir fs world path with
    | (true, world) => makeAll fs world rest
    | (false, world) => (false, world)

/-! ### The buffer -/

/-- The buffer with a text and NULs after it. -/
def padded (text : List Byte) (room : Nat) : List Byte := text ++ List.replicate room 0

theorem strncpy_eq {text : List Byte} {size : Nat} (fits : text.length ≤ size) :
    strncpy text size = padded text (size - text.length) := by
  rw [strncpy, padded, List.take_of_length_le fits]

/-- The text in a buffer ends at the first NUL. -/
theorem c_string_cut {text : List Byte} (noNul : 0 ∉ text) (rest : List Byte) :
    cString (text ++ 0 :: rest) = some text := by
  have absent : text.findIdx? (· == 0) = none := by
    rw [List.findIdx?_eq_none_iff]
    intro byte member
    have apart : byte ≠ 0 := fun same => noNul (same ▸ member)
    exact beq_false_of_ne apart
  rw [cString, List.findIdx?_append, absent]
  simp [List.findIdx?_cons]

theorem c_string_padded {text : List Byte} (noNul : 0 ∉ text) (room : Nat) :
    cString (padded text (room + 1)) = some text := by
  rw [padded, List.replicate_succ]
  exact c_string_cut noNul _

theorem stripped_length (path : Path) : (stripped path).length ≤ path.length := by
  obtain ⟨slashes, split, _⟩ := stripped_split path
  have lengths := congrArg List.length split
  rw [List.length_append] at lengths
  omega

/-- Cutting the slashes at its end leaves the stripped path, with NULs for them. -/
theorem trim_padded (path : Path) (room : Nat) :
    trimSlashes (padded path room) path.length =
      some (padded (stripped path) (room + (path.length - (stripped path).length))) := by
  cases path with
  | nil => rfl
  | cons first middle =>
    induction middle using List.reverseRecOn generalizing room with
    | nil => rfl
    | append_singleton middle byte ih =>
      have size : (first :: (middle ++ [byte])).length = middle.length + 2 := by simp
      have last : (padded (first :: (middle ++ [byte])) room)[middle.length + 1]? = some byte := by
        simp [padded]
      rw [size, trimSlashes, last]
      simp only
      have cutting := stripped_concat first byte middle
      rw [List.cons_append] at cutting
      by_cases isSlash : byte = slash
      · have cut : (padded (first :: (middle ++ [byte])) room).set (middle.length + 1) 0 =
            padded (first :: middle) (room + 1) := by
          simp [padded, List.replicate_succ]
        have shorter := stripped_length (first :: middle)
        have rest := ih (room + 1)
        rw [List.length_cons] at rest shorter
        rw [if_pos isSlash, cut, rest, cutting, if_pos isSlash]
        congr 2
        omega
      · rw [if_neg isSlash, cutting, if_neg isSlash, size]
        simp

/-- The walk over a padded text makes the directories before its slashes in
order, and ends at the NUL after the text when there is one. -/
theorem walk_padded (fs : FileSystem Tree) (room : Nat) (rest : Path) (done : Path)
    (noNul : 0 ∉ done ++ rest) (world : World Tree) :
    walkSlashes fs (padded (done ++ rest) room) done.length world =
      match makeAll fs world (ancestorsAfter done rest) with
      | (false, world) => some (false, world)
      | (true, world) => if room = 0 then none else some (true, world) := by
  induction rest generalizing done world with
  | nil =>
    rw [walkSlashes, ancestorsAfter, makeAll, List.append_nil]
    cases room with
    | zero => simp [padded]
    | succ room => simp [padded, List.replicate_succ]
  | cons byte rest ih =>
    have whole : padded (done ++ byte :: rest) room = done ++ byte :: padded rest room := by
      simp [padded]
    have inside : done.length < (done ++ byte :: padded rest room).length := by simp
    have here : (done ++ byte :: padded rest room)[done.length] = byte := by simp
    have member : byte ∈ done ++ byte :: rest := by simp
    have visible : byte ≠ 0 := fun same => noNul (same ▸ member)
    have doneVisible : 0 ∉ done := fun member => noNul (List.mem_append_left _ member)
    have next (world : World Tree) :=
      ih (done ++ [byte]) (by rwa [List.append_assoc, List.singleton_append]) world
    simp only [List.append_assoc, List.singleton_append, whole, List.length_append,
      List.length_singleton] at next
    rw [whole, walkSlashes, dif_pos inside, here, if_neg visible, ancestorsAfter]
    by_cases isSlash : byte = slash
    · have cutting : (done ++ byte :: padded rest room).set done.length 0 =
          done ++ 0 :: padded rest room := by simp
      have putBack : (done ++ 0 :: padded rest room).set done.length slash =
          done ++ byte :: padded rest room := by simp [isSlash]
      rw [if_pos isSlash, if_pos isSlash, makeAll]
      simp only [cutting, putBack, c_string_cut doneVisible]
      cases makeDir fs world done with
      | mk made world =>
        cases made with
        | false => rfl
        | true => exact next world
    · rw [if_neg isSlash, if_neg isSlash]
      exact next world

/-- The stripped path fills the whole buffer, so that no NUL follows it there. -/
def Unterminated (path : Path) : Prop := pathMax ≤ (stripped path).length

instance (path : Path) : Decidable (Unterminated path) := inferInstanceAs (Decidable (_ ≤ _))

/-- What becomes of a path that fits the buffer: the directories above the
stripped path are made in order, and then, if a NUL ends it, that path itself. -/
theorem create_out_dir_eq (fs : FileSystem Tree) (ctx : WorkerCtx) (world : World Tree) {path : Path}
    (selected : ctx.outDir.getD confOutdirDef = path) (some : path ≠ []) (noNul : 0 ∉ path)
    (fits : path.length ≤ pathMax) :
    createAndNormalizeOutDir fs ctx world =
      match makeAll fs world (ancestors (stripped path)) with
      | (false, world) => .some (.eoutDir, ctx, world)
      | (true, world) =>
        if Unterminated path then none else .some (settleOutDir fs ctx (stripped path) world) := by
  have shorter := stripped_length path
  have visible : 0 ∉ stripped path := by
    obtain ⟨slashes, split, _⟩ := stripped_split path
    intro member
    exact noNul (split ▸ List.mem_append_left _ member)
  obtain ⟨first, rest, isStripped⟩ : ∃ first rest, stripped path = first :: rest := by
    obtain ⟨first, rest, same⟩ := List.exists_cons_of_ne_nil some
    exact ⟨first, _, by rw [same, stripped]⟩
  rw [createAndNormalizeOutDir, Calls.createAndNormalizeOutDir]
  simp only [selected]
  rw [strncpy_eq fits, trim_padded]
  have room : pathMax - path.length + (path.length - (stripped path).length) =
      pathMax - (stripped path).length := by omega
  have walk := walk_padded fs (pathMax - (stripped path).length) rest [first]
    (by rwa [List.singleton_append, ← isStripped]) world
  rw [List.singleton_append, ← isStripped, List.length_singleton] at walk
  simp only [room, walk]
  rw [isStripped, ancestors, ← isStripped]
  cases makeAll fs world (ancestorsAfter [first] rest) with
  | mk made world =>
    cases made with
    | false => rfl
    | true =>
      by_cases full : Unterminated path
      · have none : pathMax - (stripped path).length = 0 := Nat.sub_eq_zero_of_le full
        simp [none, full]
      · obtain ⟨more, left⟩ : ∃ more, pathMax - (stripped path).length = more + 1 :=
          Nat.exists_eq_succ_of_ne_zero (by rw [Unterminated] at full; omega)
        simp [left, full, c_string_padded visible, settleOutDir]

/-! ### Every accepted path -/

/-- The calls of `mkdir` are some of the paths in order, and all of them as long
as none fails. -/
theorem make_all_made (fs : FileSystem Tree) (world : World Tree) (paths : List Path) :
    ∃ calls, (makeAll fs world paths).2.made = world.made ++ calls ∧ calls <+: paths ∧
      ((makeAll fs world paths).1 = true → calls = paths) := by
  induction paths generalizing world with
  | nil => exact ⟨[], by simp [makeAll], List.nil_prefix, fun _ => rfl⟩
  | cons path rest ih =>
    have called : (makeDir fs world path).2.made = world.made ++ [path] := by
      rw [makeDir]
      split <;> rfl
    rw [makeAll]
    generalize makeDir fs world path = after at called
    obtain ⟨made, after⟩ := after
    cases made with
    | false =>
      exact ⟨[path], called, (List.prefix_cons_inj path).mpr List.nil_prefix, fun wrong => by cases wrong⟩
    | true =>
      obtain ⟨calls, logged, front, all⟩ := ih after
      refine ⟨path :: calls, ?_, (List.prefix_cons_inj path).mpr front, ?_⟩
      · rw [logged, called, List.append_assoc, List.singleton_append]
      · exact fun through => congrArg (path :: ·) (all through)

theorem make_all_append (fs : FileSystem Tree) (world : World Tree) (front back : List Path) :
    makeAll fs world (front ++ back) =
      match makeAll fs world front with
      | (false, world) => (false, world)
      | (true, world) => makeAll fs world back := by
  induction front generalizing world with
  | nil => rfl
  | cons path rest ih =>
    rw [List.cons_append, makeAll, makeAll]
    cases makeDir fs world path with
    | mk made world =>
      cases made with
      | false => rfl
      | true => exact ih world

/-- Settling makes the last directory, and changes no other part of the context. -/
theorem settle_effect (fs : FileSystem Tree) (ctx : WorkerCtx) (path : Path) (world : World Tree) :
    ∃ err outDir, settleOutDir fs ctx path world =
      (err, { ctx with outDir }, (makeDir fs world path).2) := by
  rw [settleOutDir, Calls.settleOutDir]
  cases makeDir fs world path with
  | mk made world =>
    cases made with
    | false => exact ⟨.eoutDir, ctx.outDir, rfl⟩
    | true =>
      simp only
      split_ifs
      · exact ⟨.eoutDir, ctx.outDir, rfl⟩
      · exact ⟨.eoutDir, ctx.outDir, rfl⟩
      · cases fs.realpath world.tree path with
        | none => exact ⟨.eoutDir, ctx.outDir, rfl⟩
        | some absolute => exact ⟨.ok, some absolute, rfl⟩

/-- The world after a call that stays inside of its buffer: the directories of
the path are made in order as long as it is possible. -/
theorem create_out_dir_world (fs : FileSystem Tree) (ctx : WorkerCtx) (world : World Tree)
    {path : Path} (selected : ctx.outDir.getD confOutdirDef = path) (some : path ≠ [])
    (noNul : 0 ∉ path) (fits : path.length ≤ pathMax) (ended : ¬ Unterminated path) :
    ∃ err after, createAndNormalizeOutDir fs ctx world =
      .some (err, after, (makeAll fs world (lineage (stripped path))).2) := by
  rw [create_out_dir_eq fs ctx world selected some noNul fits, lineage, make_all_append]
  cases makeAll fs world (ancestors (stripped path)) with
  | mk made world =>
    cases made with
    | false => exact ⟨.eoutDir, ctx, rfl⟩
    | true =>
      obtain ⟨err, outDir, effect⟩ := settle_effect fs ctx (stripped path) world
      have last : (makeAll fs world [stripped path]).2 = (makeDir fs world (stripped path)).2 := by
        rw [makeAll]
        cases makeDir fs world (stripped path) with
        | mk made world => cases made <;> rfl
      simp only [if_neg ended, last]
      exact ⟨err, { ctx with outDir }, congrArg Option.some effect⟩

/-- A path that fits the buffer is cut short of it or ends with a slash, or it
fills the buffer without a NUL. -/
theorem unterminated_iff {path : Path} (fits : path.length ≤ pathMax) :
    ¬ Unterminated path ↔ path.length < pathMax ∨ path.getLast? = some slash := by
  have shorter := stripped_length path
  rw [Unterminated, Nat.not_le]
  by_cases short : path.length < pathMax
  · exact iff_of_true (by omega) (Or.inl short)
  · have full : path.length = pathMax := by omega
    cases path with
    | nil => exact absurd full (by decide)
    | cons first middle =>
      induction middle using List.reverseRecOn with
      | nil => simp [pathMax] at full
      | append_singleton middle byte _ =>
        have cutting := stripped_concat first byte middle
        have less := stripped_length (first :: middle)
        rw [List.cons_append] at cutting
        have last : (first :: (middle ++ [byte])).getLast? = some byte := by
          rw [← List.cons_append, List.getLast?_concat]
        have size : (first :: (middle ++ [byte])).length = (first :: middle).length + 1 := by simp
        rw [cutting, last, Option.some.injEq]
        by_cases isSlash : byte = slash
        · rw [if_pos isSlash]
          exact iff_of_true (by omega) (Or.inr isSlash)
        · rw [if_neg isSlash]
          exact iff_of_false (by omega) (not_or.mpr ⟨short, isSlash⟩)

/-- Under every file system, the walk over this path stays inside of its buffer,
finds the NUL that ends the path in it, and makes the directories it names in
order: as long as none fails, each proper ancestor before those that extend it,
and the stripped path last. -/
structure WalksInside (path : Path) : Prop where
  inside : ∀ {Tree : Type} (fs : FileSystem Tree) (ctx : WorkerCtx) (world : World Tree),
    ctx.outDir = some path → createAndNormalizeOutDir fs ctx world ≠ none
  terminated : ∃ tmp nul, trimSlashes (strncpy path pathMax) path.length = some tmp ∧
    tmp.length = pathMax ∧ nul < pathMax ∧ tmp[nul]? = some 0
  ordered : ∀ {Tree : Type} (fs : FileSystem Tree) (ctx : WorkerCtx) (world : World Tree),
    ctx.outDir = some path → ∃ err after final calls,
      createAndNormalizeOutDir fs ctx world = some (err, after, final) ∧
      final.made = world.made ++ calls ∧ calls <+: lineage (stripped path) ∧
      ((makeAll fs world (lineage (stripped path))).1 = true →
        (∀ above, above ∈ calls ↔ Ancestor above (stripped path) ∨ above = stripped path) ∧
        calls.Pairwise (fun above below => above.length < below.length) ∧
        calls.getLast? = some (stripped path))

/-- A file system on which every directory exists. -/
def everythingExists : FileSystem Unit where
  mkdir _ _ := .error .eexist
  isDirectory _ _ := true
  writable _ _ := true
  realpath _ path := some path
  created _ _ _ wrong := by cases wrong
  kept _ _ _ wrong := by cases wrong

theorem existing_make_all (world : World Unit) (paths : List Path) :
    (makeAll everythingExists world paths).1 = true := by
  induction paths generalizing world with
  | nil => rfl
  | cons path rest ih => exact ih ⟨world.tree, world.made ++ [path]⟩

/-- Even where every directory exists, a path that fills the buffer is walked out
of it. -/
theorem unterminated_outside {path : Path} (nonempty : path ≠ []) (noNul : 0 ∉ path)
    (fits : path.length ≤ pathMax) (full : Unterminated path) {ctx : WorkerCtx}
    (selected : ctx.outDir.getD confOutdirDef = path) :
    createAndNormalizeOutDir everythingExists ctx ⟨(), []⟩ = none := by
  have outcome := create_out_dir_eq everythingExists ctx ⟨(), []⟩ selected nonempty noNul fits
  have through := existing_make_all ⟨(), []⟩ (ancestors (stripped path))
  generalize makeAll everythingExists ⟨(), []⟩ (ancestors (stripped path)) = after at outcome through
  obtain ⟨made, world⟩ := after
  obtain rfl : made = true := through
  rw [outcome]
  exact if_pos full

/-- The paths accepted by `set_out_dir`. -/
theorem set_out_dir_ok_iff (path : Path) (ctx : WorkerCtx) :
    (setOutDir (some path) ctx).1 = .ok ↔ path ≠ [] ∧ path.length ≤ pathMax := by
  rw [set_out_dir_eq]
  split_ifs with fits
  · exact iff_of_true rfl fits
  · exact iff_of_false (by simp) fits

/-- A path accepted by `set_out_dir` is walked inside of the buffer exactly when
it is shorter than the buffer or ends with a slash. -/
theorem out_dir_inside_iff (path : Path) (noNul : 0 ∉ path) (ctx : WorkerCtx)
    (accepted : (setOutDir (some path) ctx).1 = .ok) :
    WalksInside path ↔ path.length < pathMax ∨ path.getLast? = some slash := by
  obtain ⟨nonempty, fits⟩ := (set_out_dir_ok_iff path ctx).mp accepted
  rw [← unterminated_iff fits]
  have selected (ctx : WorkerCtx) (given : ctx.outDir = some path) :
      ctx.outDir.getD confOutdirDef = path := by
    rw [given]
    rfl
  constructor
  · intro walks full
    have outside := unterminated_outside nonempty noNul fits full
      (selected { ctx with outDir := some path } rfl)
    exact walks.inside everythingExists _ _ rfl outside
  · intro ended
    constructor
    · intro Tree fs ctx world given
      obtain ⟨err, after, outcome⟩ :=
        create_out_dir_world fs ctx world (selected ctx given) nonempty noNul fits ended
      simp [outcome]
    · have shorter := stripped_length path
      have room : (stripped path).length < pathMax := Nat.not_le.mp ended
      refine ⟨_, (stripped path).length, by rw [strncpy_eq fits, trim_padded], ?_, room, ?_⟩
      · simp only [padded, List.length_append, List.length_replicate]
        omega
      · rw [padded, List.getElem?_append_right (Nat.le_refl _), Nat.sub_self,
          List.getElem?_replicate_of_lt (by omega)]
    · intro Tree fs ctx world given
      obtain ⟨err, after, outcome⟩ :=
        create_out_dir_world fs ctx world (selected ctx given) nonempty noNul fits ended
      obtain ⟨calls, logged, front, all⟩ := make_all_made fs world (lineage (stripped path))
      refine ⟨err, after, _, calls, outcome, logged, front, ?_⟩
      intro through
      rw [all through]
      refine ⟨?_, lineage_ordered (stripped path), ?_⟩
      · intro above
        rw [lineage, List.mem_append, List.mem_singleton, mem_ancestors_iff]
      · rw [lineage, List.getLast?_concat]

/-- The path `a/` is walked inside of the buffer. -/
theorem short_path_inside : WalksInside [0x61, 0x2f] :=
  (out_dir_inside_iff [0x61, 0x2f] (by decide) workerDefaults (by decide)).mpr (Or.inl (by decide))

/-- A path of one component that fills the buffer. -/
def longestPath : Path := List.replicate pathMax 0x61

/-- The longest path is accepted, and the walk over it leaves the buffer, even
where every directory exists. -/
theorem longest_path_outside :
    (setOutDir (some longestPath) workerDefaults).1 = .ok ∧
      createAndNormalizeOutDir everythingExists
        { workerDefaults with outDir := some longestPath } ⟨(), []⟩ = none ∧
      ¬ WalksInside longestPath := by
  have size : longestPath.length = pathMax := List.length_replicate
  have nonempty : longestPath ≠ [] := List.ne_nil_of_length_pos (by rw [size]; decide)
  have noNul : 0 ∉ longestPath := by
    intro member
    exact absurd (List.eq_of_mem_replicate member) (by decide)
  have full : Unterminated longestPath := by
    by_contra ended
    cases (unterminated_iff size.le).mp ended with
    | inl short => exact absurd size short.ne
    | inr ends =>
      have member := List.mem_of_getLast? ends
      exact absurd (List.eq_of_mem_replicate member) (by decide)
  have outside : createAndNormalizeOutDir everythingExists
      { workerDefaults with outDir := some longestPath } ⟨(), []⟩ = none :=
    unterminated_outside nonempty noNul size.le full Option.getD_some
  refine ⟨(set_out_dir_ok_iff _ _).mpr ⟨nonempty, size.le⟩, outside, ?_⟩
  intro walks
  exact walks.inside everythingExists _ _ rfl outside

end JPipe
