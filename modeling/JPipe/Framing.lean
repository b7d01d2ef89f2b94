import Mathlib.Data.List.Basic

/-!
# Frames that a mark ends

A stream of frames, each followed by a mark that it does not contain, is read by
splitting it at the marks; what follows the last mark is a frame in progress.
Frames wrapped between a fixed front and a fixed back are unwrapped after that.
-/

namespace Framing

variable {α : Type} [BEq α] [LawfulBEq α]

/-- Each frame followed by the mark. -/
def join (mark : α) (frames : List (List α)) : List α := frames.flatMap fun frame => frame ++ [mark]

/-- The frames a stream is made of, and the one in progress. -/
def split (mark : α) (stream : List α) : List (List α) × List α :=
  ((stream.splitOn mark).dropLast, (stream.splitOn mark).getLastD [])

/-- Splitting inverts joining. -/
theorem split_join (mark : α) (frames : List (List α)) (plain : ∀ frame ∈ frames, mark ∉ frame)
    (part : List α) (partPlain : mark ∉ part) :
    split mark (join mark frames ++ part) = (frames, part) := by
  have parts : (join mark frames ++ part).splitOn mark = frames ++ [part] := by
    induction frames with
    | nil => simpa [join] using List.splitOn_eq_singleton partPlain
    | cons frame rest ih =>
      have first : mark ∉ frame := plain frame List.mem_cons_self
      have others := ih fun other member => plain other (List.mem_cons_of_mem frame member)
      have stream : join mark (frame :: rest) ++ part =
          frame ++ mark :: (join mark rest ++ part) := by simp [join]
      rw [stream, List.splitOn_append_cons_self_of_not_mem first, others, List.cons_append]
  simp [split, parts]

/-- The frame between a front and a back. -/
def unwrap (front back frame : List α) : Option (List α) :=
  (frame.dropPrefix? front).bind (·.dropSuffix? back)

/-- Unwrapping inverts wrapping. -/
theorem unwrap_wrapped (front back body : List α) :
    unwrap front back (front ++ (body ++ back)) = some body := by
  have first : (front ++ (body ++ back)).dropPrefix? front = some (body ++ back) :=
    List.dropPrefix?_eq_some_iff.mpr ⟨front, rfl, by simp⟩
  have last : (body ++ back).dropSuffix? back = some body :=
    List.dropSuffix?_eq_some_iff.mpr ⟨back, rfl, by simp⟩
  rw [unwrap, first, Option.bind_some, last]

/-- Streams of frames with the same ends are the same, frame by frame. -/
theorem join_injective {mark : α} {first second : List (List α)}
    (firstPlain : ∀ frame ∈ first, mark ∉ frame) (secondPlain : ∀ frame ∈ second, mark ∉ frame)
    (same : join mark first = join mark second) : first = second := by
  have one := split_join mark first firstPlain [] (by simp)
  have other := split_join mark second secondPlain [] (by simp)
  rw [same, other] at one
  exact (congrArg Prod.fst one).symm

end Framing
