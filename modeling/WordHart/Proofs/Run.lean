import Mathlib
import WordHart.Machine.Run

namespace WordHart.Machine

variable {machine : Machine}

theorem runFor_of_outside (outside : machine.inside = false) (budget : Nat) :
    machine.runFor budget = (.completed, machine) := by
  cases budget with
  | zero => simp [runFor, outside]
  | succ budget => simp [runFor, outside]

theorem runFor_succ_of_inside (inside : machine.inside = true) (budget : Nat) :
    machine.runFor (budget + 1) = machine.step.2.runFor budget := by
  obtain ⟨outcome, next, stepped⟩ := step_of_inside inside
  simp only [runFor, inside, stepped, if_true]

/-- What a cycle preserves, a run preserves. -/
theorem runFor_preserves {invariant : Machine → Prop}
    (preserved : ∀ machine, invariant machine → invariant machine.step.2) (budget : Nat)
    (holds : invariant machine) : invariant (machine.runFor budget).2 := by
  induction budget generalizing machine with
  | zero =>
      unfold runFor
      split <;> exact holds
  | succ budget inductionHypothesis =>
      cases inside : machine.inside with
      | true =>
          rw [runFor_succ_of_inside inside]
          exact inductionHypothesis (preserved machine holds)
      | false =>
          rw [runFor_of_outside inside]
          exact holds

theorem runFor_zero (machine : Machine) : (machine.runFor 0).2 = machine := by
  unfold runFor
  split <;> rfl

theorem runFor_add (machine : Machine) (first second : Nat) :
    machine.runFor (first + second) = (machine.runFor first).2.runFor second := by
  induction first generalizing machine with
  | zero => rw [Nat.zero_add, runFor_zero]
  | succ first inductionHypothesis =>
      cases inside : machine.inside with
      | true =>
          rw [Nat.add_right_comm, runFor_succ_of_inside inside, runFor_succ_of_inside inside]
          exact inductionHypothesis machine.step.2
      | false => rw [runFor_of_outside inside, runFor_of_outside inside, runFor_of_outside inside]

theorem runFor_of_run {final : Machine} (ended : machine.run = some final) :
    ∃ budget, machine.runFor budget = (.completed, final) := by
  unfold run at ended
  -- The budget is a name from here on: no tactic may evaluate it.
  generalize stateCount = budget at ended
  refine ⟨budget, ?_⟩
  cases ran : machine.runFor budget with
  | mk exit reached =>
      rw [ran] at ended
      cases exit with
      | completed => rw [Option.some.inj ended]
      | stepLimit => cases ended

end WordHart.Machine
