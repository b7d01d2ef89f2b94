import JPipe.Schedules
import Mathlib.Data.List.Basic

/-!
# A reliable channel

The abstract view of a bounded buffer between two parties: what was sent, in
order, and what was received so far. A receive takes the oldest item not yet
received, so what was received is always an initial part of what was sent.
-/

namespace Channel

universe u
variable {α : Type u}

/-- The items sent and the items received. -/
structure History (α : Type u) where
  sent : List α
  received : List α

/-- A channel sends an item or receives the next one. -/
inductive Label (α : Type u) where
  | send (item : α)
  | receive

/-- One step of the channel. -/
def step (history : History α) : Label α → Option (History α)
  | .send item => some { history with sent := history.sent ++ [item] }
  | .receive =>
    (history.sent[history.received.length]?).map fun item =>
      { history with received := history.received ++ [item] }

/-- A step keeps what was received an initial part of what was sent. -/
theorem step_prefix (history next : History α) (label : Label α)
    (initial : history.received <+: history.sent) (taken : step history label = some next) :
    next.received <+: next.sent := by
  cases label with
  | send item =>
    obtain rfl := Option.some.inj taken
    exact initial.trans (List.prefix_append _ _)
  | receive =>
    obtain ⟨item, found, rfl⟩ := Option.map_eq_some_iff.mp taken
    obtain ⟨rest, split⟩ := initial
    rw [← split, List.getElem?_append_right (Nat.le_refl _), Nat.sub_self] at found
    cases rest with
    | nil => simp at found
    | cons first rest =>
      obtain rfl : first = item := by simpa using found
      exact ⟨rest, by rw [List.append_assoc, List.singleton_append, split]⟩

/-- After any schedule what was received is an initial part of what was sent. -/
theorem run_prefix {history final : History α} {schedule : List (Label α)}
    (initial : history.received <+: history.sent)
    (completed : Schedules.run step history schedule = some final) :
    final.received <+: final.sent := by
  have preserved (state : History α) (label : Label α) (next : History α) :
      state.received <+: state.sent → step state label = some next → next.received <+: next.sent :=
    step_prefix state next label
  exact Schedules.run_invariant preserved initial completed

end Channel
