import Mathlib
import WordHart.Proofs.Lockstep
import WordHart.Proofs.Recurrence

namespace WordHart

namespace Machine

variable {machine start left right : Machine} {count : Nat}

theorem mode_stepTimes (machine : Machine) (count : Nat) :
    (machine.stepTimes count).2.hart.mode = machine.hart.mode := by
  induction count generalizing machine with
  | zero => rfl
  | succ count inductionHypothesis =>
      exact (inductionHypothesis machine.step.2).trans (mode_step machine)

theorem stepTimes_add (machine : Machine) (count further : Nat) :
    (machine.stepTimes (count + further)).2 =
      ((machine.stepTimes count).2.stepTimes further).2 := by
  induction count generalizing machine with
  | zero => rw [Nat.zero_add, stepTimes]
  | succ count inductionHypothesis =>
      rw [Nat.succ_add]
      exact inductionHypothesis machine.step.2

/-- Machines that differ in their counters only are still such machines after a cycle, and if there
is no cycle for one of them, there is none for the other. -/
theorem Alike.cycle (alike : Alike left right) :
    right.step.1 = left.step.1 ∧ Alike left.step.2 right.step.2 := by
  cases inside : left.inside with
  | true =>
      obtain ⟨outcome, next, stepped⟩ := step_of_inside inside
      obtain ⟨other, again, alikeNext⟩ := alike.step stepped
      rw [stepped, again]
      exact ⟨rfl, alikeNext⟩
  | false =>
      have pc : right.hart.pc = left.hart.pc := by rw [alike.hart, Hart.pc_recount]
      rw [step_of_outside inside, step_of_outside (alike.inside.trans inside), pc]
      exact ⟨rfl, alike⟩

theorem Alike.stepTimes (alike : Alike left right) (count : Nat) :
    Alike (left.stepTimes count).2 (right.stepTimes count).2 :=
  (stepTimes_lockstep (fun _ _ alike (_ : True) => alike.cycle) alike fun _ _ => trivial).2

theorem run_eq_none_iff :
    machine.run = none ↔ ∀ count, (machine.stepTimes count).2.inside = true := by
  refine ⟨fun endless count => ?_, fun inside => ?_⟩
  · by_contra outside
    have completed : machine.runFor count = (.completed, (machine.stepTimes count).2) := by
      rw [runFor_eq_stepTimes, if_neg outside]
    rw [run_eq_some_iff_runFor.mpr ⟨count, completed⟩] at endless
    cases endless
  · cases ended : machine.run with
    | none => rfl
    | some final =>
        obtain ⟨budget, completed⟩ := run_eq_some_iff_runFor.mp ended
        rw [runFor_eq_stepTimes, if_pos (inside budget)] at completed
        cases completed

theorem run_eq_none_of_steps (steps : Steps count start machine) (endless : machine.run = none) :
    start.run = none := by
  rw [Option.eq_none_iff_forall_ne_some]
  intro final ended
  obtain ⟨total, whole, outside⟩ := run_eq_some_iff.mp ended
  obtain ⟨further, rfl⟩ := Nat.exists_eq_add_of_le (whole.count_le_of_outside outside steps)
  have rest : machine.run = some final :=
    run_eq_some_iff.mpr ⟨further, steps.suffix whole, outside⟩
  rw [endless] at rest
  cases rest

theorem exit_runFor_of_endless (endless : machine.run = none) (limit : Nat) :
    (machine.runFor limit).1 = .stepLimit := by
  rw [runFor_eq_stepTimes, if_pos (run_eq_none_iff.mp endless limit)]

/-- The machine comes back to a state, and does not leave memory before. -/
def Recurs (machine : Machine) : Prop :=
  ∃ first second, first < second ∧
    (∀ count ≤ second, (machine.stepTimes count).2.inside = true) ∧
    (machine.stepTimes first).2.state = (machine.stepTimes second).2.state

/-- Whatever follows the second visit has followed the first one, so it was inside memory. -/
theorem Recurs.inside (recurs : machine.Recurs) (count : Nat) :
    (machine.stepTimes count).2.inside = true := by
  obtain ⟨first, second, sooner, before, same⟩ := recurs
  have alike : Alike (machine.stepTimes first).2 (machine.stepTimes second).2 := by
    apply Alike.of_state same
    · rw [mode_stepTimes, mode_stepTimes]
    · rw [memory_stepTimes, memory_stepTimes]
  induction count using Nat.strong_induction_on with
  | h count inductionHypothesis =>
      rcases Nat.le_total count second with visited | later
      · exact before count visited
      · obtain ⟨further, rfl⟩ := Nat.exists_eq_add_of_le later
        have earlier := inductionHypothesis (first + further) (by omega)
        rw [stepTimes_add] at earlier ⊢
        exact (alike.stepTimes further).inside.trans earlier

theorem recurs_of_inside (inside : ∀ count, (machine.stepTimes count).2.inside = true) :
    machine.Recurs := by
  obtain ⟨first, second, different, same⟩ :=
    Finite.exists_ne_map_eq_of_infinite fun count => (machine.stepTimes count).2.state
  rcases Nat.lt_or_gt_of_ne different with sooner | later
  · exact ⟨first, second, sooner, fun count _ => inside count, same⟩
  · exact ⟨second, first, later, fun count _ => inside count, same.symm⟩

theorem run_eq_none_iff_recurs : machine.run = none ↔ machine.Recurs :=
  run_eq_none_iff.trans ⟨recurs_of_inside, Recurs.inside⟩

theorem Recurs.exit_runFor (recurs : machine.Recurs) (count budget : Nat) :
    ((machine.stepTimes count).2.runFor budget).1 = .stepLimit := by
  rw [runFor_eq_stepTimes, ← stepTimes_add, if_pos (recurs.inside (count + budget))]

theorem Alike.exit_runFor (alike : Alike left right) (budget : Nat) :
    (right.runFor budget).1 = (left.runFor budget).1 := by
  rw [runFor_eq_stepTimes, runFor_eq_stepTimes, (alike.stepTimes budget).inside]

theorem Alike.run_eq_none_iff (alike : Alike left right) :
    right.run = none ↔ left.run = none := by
  rw [Machine.run_eq_none_iff, Machine.run_eq_none_iff]
  exact forall_congr' fun count => by rw [(alike.stepTimes count).inside]

/-- A run has no end exactly if it comes back to a state that it has been in. Then no limit is high
enough for it, and all of this is the same for every machine that is in the same state with the same
memory and mode, however it got there and whatever it has counted. -/
theorem run_endless_iff_recurs (machine : Machine) :
    (machine.run = none ↔ ∀ count, (machine.stepTimes count).2.inside = true) ∧
      (machine.run = none ↔ machine.Recurs) ∧
      (machine.Recurs →
        ∀ count budget, ((machine.stepTimes count).2.runFor budget).1 = .stepLimit) ∧
      ∀ other : Machine, other.memory = machine.memory → other.hart.mode = machine.hart.mode →
        other.state = machine.state →
        (other.run = none ↔ machine.run = none) ∧ (other.Recurs ↔ machine.Recurs) ∧
          ∀ budget, (other.runFor budget).1 = (machine.runFor budget).1 := by
  refine ⟨run_eq_none_iff, run_eq_none_iff_recurs, Recurs.exit_runFor, ?_⟩
  intro other memory mode same
  have alike : Alike machine other := .of_state same.symm mode memory
  have ends := alike.run_eq_none_iff
  refine ⟨ends, ?_, alike.exit_runFor⟩
  rw [← run_eq_none_iff_recurs, ends, run_eq_none_iff_recurs]

/-- The first pass leaves a link in `x0`, so the state at the start is not the one that recurs. -/
theorem run_endless_iff_recurs_linked_loop :
    let machine : Machine := ⟨.new ⟨false, false⟩, ⟨#[0x00000000, 0xfffff06f]⟩, {}⟩
    let other : Machine := { machine with hart := machine.hart.recount ⟨7, 3, 4⟩ }
    machine.Recurs ∧ machine.run = none ∧ other.run = none ∧
      (machine.runFor 1000).1 = .stepLimit := by
  intro machine other
  have recurs : machine.Recurs := ⟨2, 4, by decide, by decide, by decide⟩
  obtain ⟨-, endless, limited, others⟩ := run_endless_iff_recurs machine
  have never := endless.mpr recurs
  exact ⟨recurs, never, (others other rfl rfl rfl).1.mpr never, limited recurs 0 1000⟩

end Machine

end WordHart
