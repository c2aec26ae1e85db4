import Mathlib
import WordHart.Proofs.Cycle

/-!
Two harts that carry out the same row and agree on some registers agree on them
afterwards, whatever the others hold. This is the step of every comparison
between two machines that share a memory; the cycles in a row and the bounded
runs that follow from it are dealt with here once, for any relation that a cycle
keeps.
-/

namespace WordHart

namespace Hart

variable {left right : Hart} {instruction : Instruction} {compared : Set Register}

theorem row?_congr (pc : right.pc = left.pc)
    (contents : ∀ register, right.content register = left.content register)
    (bases : instruction.opcode = .jalr →
      right.base left.pc.toNat instruction.rd instruction.rs1 =
        left.base left.pc.toNat instruction.rd instruction.rs1) :
    right.row? instruction = left.row? instruction := by
  unfold row?
  rw [pc]
  cases found : Mnemonic.ofInstruction? instruction with
  | none => rfl
  | some mnemonic =>
      have opcode := Mnemonic.opcode_of_ofInstruction? found
      cases mnemonic with
      | jalr => simp only [Option.map_some, row, bases opcode]
      | _ => simp only [Option.map_some, row, contents]

/-- Two harts agree on the program counter, the counters and the registers that are compared. -/
structure Agree (compared : Set Register) (left right : Hart) : Prop where
  pc : right.pc = left.pc
  counters : right.counters = left.counters
  registers : ∀ register ∈ compared, right.registers.read register = left.registers.read register

namespace Agree

theorem advance (agree : Agree compared left right) :
    Agree compared left.advance right.advance :=
  ⟨congrArg (· + 1) agree.pc, agree.counters, agree.registers⟩

/-- Harts that agree still do so after an instruction for which they have the same row, unless only
one of them drops what is written and so keeps another word. -/
theorem execute (agree : Agree compared left right)
    (rows : right.row? instruction = left.row? instruction)
    (dropped : ∀ value, instruction.rd ∈ compared → left.result? instruction = some value →
      right.wired instruction.rd = left.wired instruction.rd ∨
        value = left.registers.read instruction.rd) :
    Agree compared (left.execute instruction).2 (right.execute instruction).2 := by
  refine ⟨?_, ?_, fun register among => ?_⟩
  · rw [pc_execute, pc_execute, rows, agree.pc]
  · rw [(right.execute_keeps instruction).2, (left.execute_keeps instruction).2, agree.counters]
  · have results : right.result? instruction = left.result? instruction := by
      rw [result?, result?, rows]
    rw [read_execute, read_execute, results, agree.registers register among]
    by_cases written : register = instruction.rd
    · subst written
      cases result : left.result? instruction with
      | none => simp only [Option.getD_none, ite_self]
      | some value =>
          rcases dropped value among result with same | unchanged
          · rw [same]
          · simp only [Option.getD_some, unchanged, ite_self]
    · simp only [written, false_and, if_false]

end Agree

end Hart

namespace Machine

variable {left right : Machine} {related : Machine → Machine → Prop}

/-- The two machines share a memory, and their harts agree on the registers compared. -/
structure Agree (compared : Set Register) (left right : Machine) : Prop where
  hart : Hart.Agree compared left.hart right.hart
  memory : right.memory = left.memory

namespace Agree

variable {compared : Set Register}

theorem inside (agree : Agree compared left right) : right.inside = left.inside := by
  rw [Machine.inside, Machine.inside, agree.hart.pc, agree.memory]

theorem next? (agree : Agree compared left right) : right.next? = left.next? :=
  next?_congr agree.hart.pc agree.memory

theorem registers_eq (agree : Agree Set.univ left right) :
    right.hart.registers = left.hart.registers :=
  RegisterFile.ext_read fun register => agree.hart.registers register (Set.mem_univ register)

/-- Machines that agree fetch the same instruction, so a cycle is as good as its execution. -/
theorem step (agree : Agree compared left right)
    (executed : ∀ instruction, left.next? = some instruction →
      Hart.Agree compared (left.hart.advance.execute instruction).2
        (right.hart.advance.execute instruction).2) :
    right.step.1 = left.step.1 ∧ Agree compared left.step.2 right.step.2 := by
  cases inside : left.inside with
  | false =>
      rw [step_of_outside inside, step_of_outside (agree.inside.trans inside), agree.hart.pc]
      exact ⟨rfl, agree⟩
  | true =>
      obtain ⟨instruction, fetched⟩ := exists_next inside
      have outcome := Hart.outcome_execute_eq left.hart.advance right.hart.advance instruction
      have after := executed instruction fetched
      rw [step_of_next fetched, step_of_next (agree.next?.trans fetched)]
      refine ⟨congrArg Except.ok outcome, ⟨after.pc, ?_, after.registers⟩, agree.memory⟩
      exact congrArg₂ Counters.record after.counters outcome

end Agree

section Lockstep

variable {guard : Machine → Prop}
  (kept : ∀ left right, related left right → guard left →
    right.step.1 = left.step.1 ∧ related left.step.2 right.step.2)

include kept

/-- What relates two machines keeps them in lockstep if it lasts over each of their cycles, as long
as the first machine passes the guard. -/
theorem stepTimes_lockstep (start : related left right) {count : Nat}
    (guarded : ∀ earlier < count, guard (left.stepTimes earlier).2) :
    (right.stepTimes count).1 = (left.stepTimes count).1 ∧
      related (left.stepTimes count).2 (right.stepTimes count).2 := by
  induction count generalizing left right with
  | zero => exact ⟨rfl, start⟩
  | succ count inductionHypothesis =>
      obtain ⟨outcome, next⟩ := kept _ _ start (guarded 0 (Nat.succ_pos count))
      have later : ∀ earlier < count, guard (left.step.2.stepTimes earlier).2 :=
        fun earlier within => guarded (earlier + 1) (Nat.succ_lt_succ within)
      obtain ⟨outcomes, final⟩ := inductionHypothesis next later
      exact ⟨congrArg₂ List.cons outcome outcomes, final⟩

theorem runFor_lockstep (ends : ∀ left right, related left right → right.inside = left.inside)
    (start : related left right) {budget : Nat}
    (guarded : ∀ earlier < budget, guard (left.stepTimes earlier).2) :
    (right.runFor budget).1 = (left.runFor budget).1 ∧
      related (left.runFor budget).2 (right.runFor budget).2 := by
  obtain ⟨_, final⟩ := stepTimes_lockstep kept start guarded
  rw [runFor_eq_stepTimes, runFor_eq_stepTimes, ends _ _ final]
  exact ⟨rfl, final⟩

end Lockstep

end Machine

end WordHart
