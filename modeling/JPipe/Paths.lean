import Mathlib.Data.UInt
import Mathlib.Data.List.DropRight

/-!
# Path texts

A path is the text of its components with slashes between them. Its ancestors
are the texts before its slashes, the empty one apart, and are named in the
order in which a walk from left to right meets them. A path may end with
slashes; without these it names the same file, and one slash alone is the root.
-/

namespace Paths

abbrev Byte := UInt8

abbrev Path := List Byte

/-- `'/'`. -/
def slash : Byte := 0x2f

/-- A proper ancestor of a path: the text before one of its slashes, not empty. -/
def Ancestor (above path : Path) : Prop := above ≠ [] ∧ ∃ rest, path = above ++ slash :: rest

/-- The texts before the slashes of `rest`, each after what was read before. -/
def ancestorsAfter (done : Path) : Path → List Path
  | [] => []
  | byte :: rest =>
    if byte = slash then done :: ancestorsAfter (done ++ [byte]) rest
    else ancestorsAfter (done ++ [byte]) rest

/-- The texts before the slashes of a path, from the second byte on. -/
def ancestors : Path → List Path
  | [] => []
  | first :: rest => ancestorsAfter [first] rest

/-- A path without the slashes at its end, the first byte always staying. -/
def stripped : Path → Path
  | [] => []
  | first :: rest => first :: rest.rdropWhile (· == slash)

theorem mem_ancestors_after (done rest above : Path) :
    above ∈ ancestorsAfter done rest ↔
      ∃ front back, rest = front ++ slash :: back ∧ above = done ++ front := by
  induction rest generalizing done with
  | nil => simp [ancestorsAfter]
  | cons byte rest ih =>
    have later : above ∈ ancestorsAfter (done ++ [byte]) rest ↔
        ∃ front back, byte :: rest = (byte :: front) ++ slash :: back ∧
          above = done ++ byte :: front := by
      rw [ih]
      simp
    constructor
    · intro member
      by_cases isSlash : byte = slash
      · rw [ancestorsAfter, if_pos isSlash, List.mem_cons, later] at member
        cases member with
        | inl here => exact ⟨[], rest, by rw [isSlash]; rfl, by rw [here, List.append_nil]⟩
        | inr inRest =>
          obtain ⟨front, back, split, same⟩ := inRest
          exact ⟨byte :: front, back, split, same⟩
      · rw [ancestorsAfter, if_neg isSlash, later] at member
        obtain ⟨front, back, split, same⟩ := member
        exact ⟨byte :: front, back, split, same⟩
    · intro ⟨front, back, split, same⟩
      cases front with
      | nil =>
        obtain ⟨isSlash, _⟩ := List.cons.inj split
        rw [ancestorsAfter, if_pos isSlash, same, List.append_nil]
        exact List.mem_cons_self
      | cons first others =>
        obtain ⟨isFirst, _⟩ := List.cons.inj split
        have member := later.mpr ⟨others, back, isFirst ▸ split, isFirst ▸ same⟩
        rw [ancestorsAfter]
        split_ifs
        · exact List.mem_cons_of_mem done member
        · exact member

/-- The ancestors a walk names are those of the path. -/
theorem mem_ancestors_iff (path above : Path) : above ∈ ancestors path ↔ Ancestor above path := by
  cases path with
  | nil => simp [ancestors, Ancestor]
  | cons first rest =>
    rw [ancestors, mem_ancestors_after]
    constructor
    · intro ⟨front, back, split, same⟩
      exact ⟨by rw [same]; simp, back, by rw [same, split]; rfl⟩
    · intro ⟨nonempty, back, split⟩
      obtain ⟨head, front, same⟩ := List.exists_cons_of_ne_nil nonempty
      rw [same] at split
      obtain ⟨isFirst, others⟩ := List.cons.inj split
      exact ⟨front, back, others, by rw [same, isFirst]; rfl⟩

/-- The ancestors above the rest of a path are shorter than the whole path, and not
shorter than the part of it that was read before. -/
theorem ancestors_after_bound {done rest above : Path} (member : above ∈ ancestorsAfter done rest) :
    done.length ≤ above.length ∧ above.length < (done ++ rest).length := by
  obtain ⟨front, back, split, same⟩ := (mem_ancestors_after done rest above).mp member
  rw [split, same]
  simp only [List.length_append, List.length_cons]
  omega

/-- The ancestors above the rest of a path come in the order of their lengths, the
shortest first. -/
theorem ancestors_after_ordered (done rest : Path) :
    (ancestorsAfter done rest).Pairwise (fun above below => above.length < below.length) := by
  induction rest generalizing done with
  | nil => exact List.Pairwise.nil
  | cons byte rest ih =>
    rw [ancestorsAfter]
    split_ifs
    · refine List.Pairwise.cons ?_ (ih (done ++ [byte]))
      intro below member
      have bound := (ancestors_after_bound member).1
      rw [List.length_append, List.length_singleton] at bound
      omega
    · exact ih (done ++ [byte])

/-- The ancestors of a path and then the path itself. -/
def lineage (path : Path) : List Path := ancestors path ++ [path]

/-- Each ancestor comes before all that extend it, the path last. -/
theorem lineage_ordered (path : Path) :
    (lineage path).Pairwise (fun above below => above.length < below.length) := by
  cases path with
  | nil => simp [lineage, ancestors]
  | cons first rest =>
    rw [lineage, ancestors, List.pairwise_append]
    refine ⟨ancestors_after_ordered [first] rest, List.pairwise_singleton _ _, ?_⟩
    intro above member last isPath
    rw [List.mem_singleton.mp isPath]
    exact (ancestors_after_bound member).2

/-- The last byte of a path goes when it is a slash, and not the first byte. -/
theorem stripped_concat (first byte : Byte) (middle : Path) :
    stripped (first :: middle ++ [byte]) =
      if byte = slash then stripped (first :: middle) else first :: middle ++ [byte] := by
  rw [List.cons_append, stripped, List.rdropWhile_concat]
  by_cases isSlash : byte = slash
  · simp [isSlash, stripped]
  · simp [isSlash]

/-- What is stripped is slashes at the end. -/
theorem stripped_split (path : Path) :
    ∃ slashes, path = stripped path ++ slashes ∧ ∀ byte ∈ slashes, byte = slash := by
  cases path with
  | nil => exact ⟨[], rfl, by simp⟩
  | cons first rest =>
    refine ⟨rest.rtakeWhile (· == slash), ?_, ?_⟩
    · rw [stripped, List.cons_append, List.rdropWhile_append_rtakeWhile]
    · intro byte member
      have isSlash := List.mem_rtakeWhile_imp (p := (· == slash)) member
      exact beq_iff_eq.mp isSlash

end Paths
