import JPipe.Schedules
import Mathlib.Data.List.Basic

/-!
# Work bounded by a potential

Each state of a machine carries a potential, and each label either works or is
idle: a working step lowers the potential, an idle one raises it by at most a
fixed amount. The number of working steps of a run is then bounded by the
potential at its start and the number of its idle steps, whatever their order.

The second rule is the other half of termination: where every state short of a
goal has an admitted step that lowers the potential, a goal is within reach of
every state.
-/

namespace Schedules

universe u v
variable {σ : Type u} {ε : Type v}

/-- Working steps lower the potential and idle steps raise it by at most `raise`. -/
structure Amortised (step : σ → ε → Option σ) (invariant : σ → Prop) (idle : ε → Bool)
    (potential : σ → Nat) (raise : Nat) : Prop where
  kept : ∀ state label next, invariant state → step state label = some next → invariant next
  working : ∀ state label next, invariant state → idle label = false →
    step state label = some next → potential next < potential state
  idling : ∀ state label next, invariant state → idle label = true →
    step state label = some next → potential next ≤ potential state + raise

/-- The working steps of a run are paid for by its start and its idle steps. -/
theorem work_bounded {step : σ → ε → Option σ} {invariant : σ → Prop} {idle : ε → Bool}
    {potential : σ → Nat} {raise : Nat}
    (amortised : Amortised step invariant idle potential raise)
    {state final : σ} {schedule : List ε} (initial : invariant state)
    (completed : run step state schedule = some final) :
    potential final + schedule.countP (fun label => !idle label) ≤
      potential state + raise * schedule.countP idle := by
  induction schedule generalizing state with
  | nil =>
    obtain rfl := Option.some.inj completed
    simp
  | cons label rest ih =>
    obtain ⟨next, taken, following⟩ := (run_cons_iff step state final label rest).mp completed
    have bounded := ih (amortised.kept state label next initial taken) following
    cases kind : idle label with
    | false =>
      have lowered := amortised.working state label next initial kind taken
      rw [List.countP_cons_of_pos (by simp [kind]), List.countP_cons_of_neg (by simp [kind])]
      omega
    | true =>
      have raised := amortised.idling state label next initial kind taken
      rw [List.countP_cons_of_neg (by simp [kind]), List.countP_cons_of_pos kind, Nat.mul_succ]
      omega

/-- Where every state short of a goal has an admitted step that lowers the potential,
admitted steps lead to a goal, no more of them than the potential.

Induct on a bound of the potential. -/
theorem reaches_goal {step : σ → ε → Option σ} {invariant goal : σ → Prop} {admits : ε → Prop}
    {potential : σ → Nat}
    (progress : ∀ state, invariant state → ¬ goal state →
      ∃ label next, admits label ∧ step state label = some next ∧ invariant next ∧
        potential next < potential state)
    {state : σ} (initial : invariant state) :
    ∃ schedule final, (∀ label ∈ schedule, admits label) ∧
      run step state schedule = some final ∧ invariant final ∧ goal final ∧
      schedule.length ≤ potential state := by
  generalize size : potential state = bound
  induction bound using Nat.strongRecOn generalizing state with
  | ind bound ih =>
    by_cases reached : goal state
    · exact ⟨[], state, by simp, rfl, initial, reached, Nat.zero_le _⟩
    · obtain ⟨label, next, admitted, taken, kept, lowered⟩ := progress state initial reached
      obtain ⟨rest, final, others, following, holds, ends, short⟩ :=
        ih (potential next) (size ▸ lowered) kept rfl
      refine ⟨label :: rest, final, ?_, ?_, holds, ends, ?_⟩
      · intro other member
        rcases List.mem_cons.mp member with rfl | later
        · exact admitted
        · exact others other later
      · exact (run_cons_iff step state final label rest).mpr ⟨next, taken, following⟩
      · rw [List.length_cons]
        omega

end Schedules
