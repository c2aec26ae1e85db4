import Mathlib
import WordHart.Proofs.Steps

namespace WordHart

namespace Hart

variable {hart : Hart} {instruction : Instruction}

/-- The row that a hart carries out for a record, if the record is not ignored. -/
def row? (hart : Hart) (instruction : Instruction) : Option Row :=
  (Mnemonic.ofInstruction? instruction).map
    (hart.row hart.pc.toNat instruction.rd instruction.rs1 instruction.rs2 instruction.imm.toInt)

/-- What a record writes to its destination, which may be wired, if the record is not ignored. -/
def result? (hart : Hart) (instruction : Instruction) : Option Word :=
  (hart.row? instruction).map fun row => BitVec.ofInt 32 row.value

/-- The hart as it is when the instruction at its program counter executes. -/
def advance (hart : Hart) : Hart := { hart with pc := hart.pc + 1 }

theorem execute_of_row {row : Row} (found : hart.row? instruction = some row) :
    ∃ next, hart.execute instruction = (.executed instruction, next) ∧
      next.counters = hart.counters ∧ hart.Follows instruction.rd row next := by
  obtain ⟨mnemonic, named, rfl⟩ := Option.map_eq_some_iff.mp found
  exact execute_of_mnemonic hart named BitVec.ofInt_toInt

theorem execute_of_no_row (missing : hart.row? instruction = none) :
    ∃ reason, hart.execute instruction = (.ignored instruction reason, hart) :=
  execute_of_no_mnemonic hart (Option.map_eq_none_iff.mp missing)

theorem reason_effect_eq (left right : Hart) (instruction : Instruction) :
    (right.effect instruction).map (fun _ => ()) = (left.effect instruction).map (fun _ => ()) := by
  unfold effect
  repeat' split
  all_goals rfl

/-- Whether a record is ignored, and why, can be seen from the record. -/
theorem outcome_execute_eq (left right : Hart) (instruction : Instruction) :
    (right.execute instruction).1 = (left.execute instruction).1 := by
  have same := reason_effect_eq left right instruction
  unfold execute
  cases leftEffect : left.effect instruction <;> cases rightEffect : right.effect instruction <;>
    simp_all [Except.map]

theorem execute_keeps (hart : Hart) (instruction : Instruction) :
    (hart.execute instruction).2.mode = hart.mode ∧
      (hart.execute instruction).2.counters = hart.counters := by
  cases found : hart.row? instruction with
  | none =>
      obtain ⟨_, ignored⟩ := execute_of_no_row found
      rw [ignored]
      exact ⟨rfl, rfl⟩
  | some row =>
      obtain ⟨next, executed, counted, followed⟩ := execute_of_row found
      rw [executed]
      exact ⟨followed.mode, counted⟩

theorem pc_execute (hart : Hart) (instruction : Instruction) :
    (hart.execute instruction).2.pc =
      ((hart.row? instruction).map fun row => BitVec.ofInt 32 row.target).getD hart.pc := by
  cases found : hart.row? instruction with
  | none =>
      obtain ⟨_, ignored⟩ := execute_of_no_row found
      rw [ignored]
      rfl
  | some row =>
      obtain ⟨next, executed, _, followed⟩ := execute_of_row found
      rw [executed]
      exact followed.pc

/-- The register that a record names as its destination is the only one that changes. -/
theorem read_execute (hart : Hart) (instruction : Instruction) (register : Register) :
    (hart.execute instruction).2.registers.read register =
      if register = instruction.rd ∧ ¬ hart.wired instruction.rd = true then
        (hart.result? instruction).getD (hart.registers.read register)
      else hart.registers.read register := by
  unfold result?
  cases found : hart.row? instruction with
  | none =>
      obtain ⟨_, ignored⟩ := execute_of_no_row found
      rw [ignored]
      exact (ite_self _).symm
  | some row =>
      obtain ⟨next, executed, _, followed⟩ := execute_of_row found
      rw [executed]
      simp only [wired_iff, Option.map_some, Option.getD_some]
      exact followed.registers register

end Hart

namespace Machine

variable {machine left right : Machine} {instruction : Instruction} {register : Register}
  {count : Nat}

/-- The instruction that the next cycle carries out. There is none outside memory. -/
def next? (machine : Machine) : Option Instruction :=
  machine.memory.words[machine.hart.pc.toNat]?.map .decode

/-- The register that the next cycle writes and what it writes there, if it writes any. A wired
register is named as well, although the write has no effect. -/
def stored? (machine : Machine) : Option (Register × Word) :=
  machine.next?.bind fun instruction =>
    (machine.hart.advance.result? instruction).map (instruction.rd, ·)

theorem inside_iff_lt :
    machine.inside = true ↔ machine.hart.pc.toNat < machine.memory.words.length := by
  rw [Memory.length_words]
  exact decide_eq_true_iff

theorem next?_of_outside (outside : machine.inside = false) : machine.next? = none := by
  have beyond : machine.memory.words.length ≤ machine.hart.pc.toNat := by
    rw [← Nat.not_lt, ← inside_iff_lt, outside]
    exact Bool.false_ne_true
  rw [next?, List.getElem?_eq_none beyond, Option.map_none]

theorem exists_next (inside : machine.inside = true) :
    ∃ instruction, machine.next? = some instruction := by
  rw [next?, List.getElem?_eq_getElem (inside_iff_lt.mp inside)]
  exact ⟨_, rfl⟩

theorem inside_of_next (fetched : machine.next? = some instruction) : machine.inside = true := by
  by_contra outside
  rw [next?_of_outside (Bool.eq_false_of_not_eq_true outside)] at fetched
  cases fetched

theorem next?_congr (pc : right.hart.pc = left.hart.pc) (memory : right.memory = left.memory) :
    right.next? = left.next? := by
  rw [next?, next?, pc, memory]

theorem step_of_next (fetched : machine.next? = some instruction) :
    machine.step =
      let (outcome, next) := machine.hart.advance.execute instruction
      (.ok outcome, { machine with
        hart := { next with counters := next.counters.record outcome } }) := by
  obtain ⟨word, present, rfl⟩ := Option.map_eq_some_iff.mp fetched
  rw [Machine.step, Hart.step_of_load (Memory.load_of_words present)]
  rfl

theorem mode_step (machine : Machine) : machine.step.2.hart.mode = machine.hart.mode :=
  (machine.hart.step_keeps machine.memory).1

theorem stored?_of_next (fetched : machine.next? = some instruction) :
    machine.stored? =
      (machine.hart.advance.result? instruction).map (instruction.rd, ·) := by
  simp only [stored?, fetched, Option.bind_some]

/-- A cycle keeps what a register holds, unless that is where it stores. -/
theorem read_step (machine : Machine) (register : Register) :
    machine.step.2.hart.registers.read register =
      match machine.stored? with
      | some (target, value) =>
          if register = target ∧ ¬ machine.hart.wired target = true then value
          else machine.hart.registers.read register
      | none => machine.hart.registers.read register := by
  cases inside : machine.inside with
  | false =>
      rw [stored?, next?_of_outside inside, step_of_outside inside]
      rfl
  | true =>
      obtain ⟨instruction, fetched⟩ := exists_next inside
      have moved := machine.hart.advance.read_execute instruction register
      rw [step_of_next fetched, stored?_of_next fetched]
      cases written : machine.hart.advance.result? instruction with
      | none =>
          rw [written] at moved
          exact moved.trans (ite_self _)
      | some value =>
          rw [written] at moved
          exact moved

theorem read_step_of_not_stored (kept : ∀ value, machine.stored? ≠ some (register, value)) :
    machine.step.2.hart.registers.read register = machine.hart.registers.read register := by
  rw [read_step]
  split
  case h_1 target value stored =>
    apply if_neg
    rintro ⟨rfl, -⟩
    exact kept value stored
  case h_2 => rfl

/-- What so many single steps in a row return, and the machine after them. A step that fails
leaves the machine as it is, so all further ones fail alike. -/
def stepTimes (machine : Machine) : Nat → List (Except AccessError Outcome) × Machine
  | 0 => ([], machine)
  | count + 1 =>
      let (outcomes, final) := machine.step.2.stepTimes count
      (machine.step.1 :: outcomes, final)

@[simp] theorem memory_stepTimes (machine : Machine) (count : Nat) :
    (machine.stepTimes count).2.memory = machine.memory := by
  induction count generalizing machine with
  | zero => rfl
  | succ count inductionHypothesis => exact inductionHypothesis machine.step.2

theorem read_stepTimes_of_not_stored
    (kept : ∀ cycle < count, ∀ value,
      (machine.stepTimes cycle).2.stored? ≠ some (register, value)) :
    (machine.stepTimes count).2.hart.registers.read register =
      machine.hart.registers.read register := by
  induction count generalizing machine with
  | zero => rfl
  | succ count inductionHypothesis =>
      have later : ∀ cycle < count, ∀ value,
          (machine.step.2.stepTimes cycle).2.stored? ≠ some (register, value) :=
        fun cycle within => kept (cycle + 1) (Nat.succ_lt_succ within)
      rw [stepTimes, inductionHypothesis later]
      exact read_step_of_not_stored (kept 0 (Nat.succ_pos count))

theorem stepTimes_of_outside (outside : machine.inside = false) (count : Nat) :
    (machine.stepTimes count).2 = machine := by
  induction count with
  | zero => rfl
  | succ count inductionHypothesis =>
      rw [stepTimes, step_of_outside outside]
      exact inductionHypothesis

/-- A bounded run ends where as many single steps end. -/
theorem runFor_eq_stepTimes (machine : Machine) (budget : Nat) :
    machine.runFor budget =
      (if (machine.stepTimes budget).2.inside then .stepLimit else .completed,
        (machine.stepTimes budget).2) := by
  induction budget generalizing machine with
  | zero =>
      unfold runFor stepTimes
      split <;> rfl
  | succ budget inductionHypothesis =>
      cases inside : machine.inside with
      | true =>
          rw [runFor_succ_of_inside inside]
          exact inductionHypothesis machine.step.2
      | false => simp [runFor_of_outside inside, stepTimes_of_outside inside, inside]

end Machine

end WordHart
