import Mathlib
import WordHart.Proofs.InstructionTable
import WordHart.Proofs.Restore
import WordHart.Proofs.Run

namespace WordHart

/-- What can be done with a machine from outside. -/
inductive Operation where
  | load (program : List Word)
  | step
  | run
  | runFor (budget : Nat)
  | reset
  | restore (snapshot : Snapshot)
  /-- Go on with the machine that a snapshot describes, if it describes one. -/
  | replace (snapshot : Snapshot)

namespace Hart

variable {hart next : Hart}

theorem Follows.read_x0 {rd : Register} {row : Row} (followed : hart.Follows rd row next)
    (wiring : hart.mode.hardwireX0 = true) :
    next.registers.read .x0 = hart.registers.read .x0 := by
  rw [followed.registers]
  apply if_neg
  intro ⟨destination, free⟩
  exact free ⟨wiring, destination.symm⟩

theorem step_keeps (hart : Hart) (memory : Memory) :
    (hart.step memory).2.mode = hart.mode ∧
      (hart.mode.hardwireX0 = true →
        (hart.step memory).2.registers.read .x0 = hart.registers.read .x0) := by
  cases loaded : memory.load hart.pc with
  | error reason =>
      rw [step_of_load_error loaded]
      exact ⟨rfl, fun _ => rfl⟩
  | ok word =>
      cases found : Mnemonic.ofWord? word with
      | none =>
          obtain ⟨reason, ignored⟩ := step_of_no_mnemonic loaded found
          rw [ignored]
          exact ⟨rfl, fun _ => rfl⟩
      | some mnemonic =>
          obtain ⟨next, executed, _, followed⟩ := step_of_mnemonic loaded found
          rw [executed]
          exact ⟨followed.mode, followed.read_x0⟩

end Hart

namespace Machine

variable {machine next final : Machine}

/-- The machine after an operation. There is none after a run that does not end. -/
def perform (machine : Machine) : Operation → Option Machine
  | .load program => some (machine.load program).2
  | .step => some machine.step.2
  | .run => machine.run
  | .runFor budget => some (machine.runFor budget).2
  | .reset => some machine.reset
  | .restore snapshot => some (machine.restore snapshot).2
  | .replace snapshot =>
      match ofSnapshot snapshot with
      | .ok replacement => some replacement
      | .error _ => some machine

inductive Reachable : Machine → Prop
  | new (config : Config) : Reachable (.new config)
  | perform {machine next : Machine} (operation : Operation) (reachable : Reachable machine)
      (performed : machine.perform operation = some next) : Reachable next

theorem consistent_new (config : Config) : (new config).Consistent := by
  refine ⟨Memory.size_zero _, rfl, ?_⟩
  intro _
  exact RegisterFile.read_zero .x0

namespace Consistent

theorem load (consistent : machine.Consistent) (program : List Word) :
    (machine.load program).2.Consistent := by
  refine ⟨?_, ?_, ?_⟩
  · rw [size_load, config_load]
    exact consistent.size
  · rw [hart_load, config_load]
    exact consistent.mode
  · rw [hart_load, config_load]
    exact consistent.wired

theorem step (consistent : machine.Consistent) : machine.step.2.Consistent := by
  obtain ⟨mode, kept⟩ := machine.hart.step_keeps machine.memory
  refine ⟨consistent.size, mode.trans consistent.mode, ?_⟩
  intro wiring
  have wired : machine.hart.mode.hardwireX0 = true := by
    rw [consistent.mode]
    exact wiring
  exact (kept wired).trans (consistent.wired wiring)

theorem runFor (consistent : machine.Consistent) (budget : Nat) :
    (machine.runFor budget).2.Consistent :=
  runFor_preserves (fun _ => step) budget consistent

theorem run (consistent : machine.Consistent) (ended : machine.run = some final) :
    final.Consistent := by
  obtain ⟨budget, ran⟩ := runFor_of_run ended
  have kept := consistent.runFor budget
  rwa [ran] at kept

theorem reset (consistent : machine.Consistent) : machine.reset.Consistent := by
  refine ⟨consistent.size, consistent.mode, ?_⟩
  intro _
  exact RegisterFile.read_zero .x0

theorem restore (consistent : machine.Consistent) (snapshot : Snapshot) :
    (machine.restore snapshot).2.Consistent := by
  rcases restore_cases machine snapshot with ⟨reason, refused, _⟩ | ⟨intact, _, accepted⟩
  · rw [refused]
    exact consistent
  · rw [accepted]
    exact Snapshot.consistent_machine intact.count

theorem replace (consistent : machine.Consistent) {snapshot : Snapshot}
    (performed : machine.perform (.replace snapshot) = some next) : next.Consistent := by
  simp only [Machine.perform] at performed
  split at performed
  case h_1 described =>
    cases performed
    obtain ⟨intact, rfl⟩ := ofSnapshot_eq_ok_iff.mp described
    exact Snapshot.consistent_machine intact.count
  case h_2 =>
    cases performed
    exact consistent

theorem perform (consistent : machine.Consistent) {operation : Operation}
    (performed : machine.perform operation = some next) : next.Consistent := by
  cases operation with
  | load program =>
      cases performed
      exact consistent.load program
  | step =>
      cases performed
      exact consistent.step
  | run => exact consistent.run performed
  | runFor budget =>
      cases performed
      exact consistent.runFor budget
  | reset =>
      cases performed
      exact consistent.reset
  | restore snapshot =>
      cases performed
      exact consistent.restore snapshot
  | replace snapshot => exact consistent.replace performed

end Consistent

theorem Reachable.consistent (reachable : machine.Reachable) : machine.Consistent := by
  induction reachable with
  | new config => exact consistent_new config
  | perform operation _ performed inductionHypothesis => exact inductionHypothesis.perform performed

end Machine

end WordHart
