import Mathlib
import WordHart.Proofs.Steps

namespace WordHart

namespace Hart

variable (hart : Hart) (counters : Counters)

/-- The same hart with other counters. -/
def recount : Hart := { hart with counters }

@[simp] theorem pc_recount : (hart.recount counters).pc = hart.pc := rfl

@[simp] theorem mode_recount : (hart.recount counters).mode = hart.mode := rfl

@[simp] theorem read_recount (register : Register) :
    (hart.recount counters).read register = hart.read register := rfl

@[simp] theorem write_recount (register : Register) (value : Word) :
    (hart.recount counters).write register value =
      (hart.write register value).recount counters := by
  have same : (hart.recount counters).wired register = hart.wired register := rfl
  unfold write
  rw [same]
  split <;> rfl

@[simp] theorem jump_recount (rd : Register) (target : Word) :
    (hart.recount counters).jump rd target = (hart.jump rd target).recount counters := by
  simp only [jump, write_recount, pc_recount]
  rfl

@[simp] theorem indirectTarget_recount (instruction : Instruction) :
    (hart.recount counters).indirectTarget instruction = hart.indirectTarget instruction := by
  simp only [indirectTarget, write_recount, pc_recount, mode_recount, read_recount]

theorem effect_recount (instruction : Instruction) :
    (hart.recount counters).effect instruction =
      (hart.effect instruction).map (recount · counters) := by
  unfold effect
  simp only [write_recount, jump_recount, indirectTarget_recount, pc_recount, read_recount]
  repeat' split
  all_goals rfl

theorem execute_recount (instruction : Instruction) :
    (hart.recount counters).execute instruction =
      ((hart.execute instruction).1, (hart.execute instruction).2.recount counters) := by
  simp only [execute, effect_recount]
  cases hart.effect instruction <;> rfl

end Hart

namespace Machine

/-- The second machine differs from the first in nothing that a cycle reads. -/
structure Alike (left right : Machine) : Prop where
  hart : right.hart = left.hart.recount right.hart.counters
  memory : right.memory = left.memory

variable {machine left right next final : Machine} {count : Nat}

theorem Alike.inside (alike : Alike left right) : right.inside = left.inside := by
  rw [Machine.inside, alike.hart, alike.memory]
  rfl

theorem Alike.step (alike : Alike left right) {outcome : Outcome}
    (stepped : left.step = (.ok outcome, next)) :
    ∃ other, right.step = (.ok outcome, other) ∧ Alike next other := by
  have moved := hart_of_step stepped
  cases loaded : left.memory.load left.hart.pc with
  | error reason =>
      rw [Hart.step_of_load_error loaded] at moved
      cases moved
  | ok word =>
      have same : right.memory.load right.hart.pc = .ok word := by
        rw [alike.memory, alike.hart]
        exact loaded
      have advanced : { right.hart with pc := right.hart.pc + 1 } =
          Hart.recount { left.hart with pc := left.hart.pc + 1 } right.hart.counters := by
        rw [alike.hart]
        rfl
      rw [Hart.step_of_load loaded] at moved
      simp only [Machine.step, Hart.step_of_load same, advanced, Hart.execute_recount]
      obtain ⟨executed, reached⟩ := Prod.mk.inj moved
      refine ⟨_, Prod.ext executed rfl, ?_, ?_⟩
      · rw [← reached]
        rfl
      · exact alike.memory.trans (memory_of_step stepped).symm

theorem Alike.steps (alike : Alike left right) (steps : Steps count left next) :
    ∃ other, Steps count right other ∧ Alike next other := by
  induction steps generalizing right with
  | refl => exact ⟨right, .refl right, alike⟩
  | cons stepped _ inductionHypothesis =>
      obtain ⟨middle, again, alikeMiddle⟩ := alike.step stepped
      obtain ⟨other, rest, alikeOther⟩ := inductionHypothesis alikeMiddle
      exact ⟨other, .cons again rest, alikeOther⟩

/-- What a cycle reads of a hart and may change: the program counter and the registers. -/
def state (machine : Machine) : Word × (Fin 32 → Word) :=
  (machine.hart.pc, fun index => machine.hart.registers.read (.ofNat index))

theorem card_state : Fintype.card (Word × (Fin 32 → Word)) = stateCount := by
  have words : Fintype.card Word = 2 ^ 32 := by
    rw [Fintype.card_congr BitVec.equivFin.toEquiv, Fintype.card_fin]
  have together (width count exponent : Nat) (total : (count + 1) * width = exponent) :
      2 ^ width * (2 ^ width) ^ count = Nat.pow 2 exponent := by
    rw [← total, Nat.pow_eq, ← Nat.pow_mul, ← Nat.pow_add, Nat.succ_mul, Nat.mul_comm,
      Nat.add_comm]
  rw [Fintype.card_prod, Fintype.card_fun, words, Fintype.card_fin]
  unfold stateCount
  apply together
  decide

theorem Alike.of_state (same : left.state = right.state)
    (mode : right.hart.mode = left.hart.mode) (memory : right.memory = left.memory) :
    Alike left right := by
  obtain ⟨pc, registers⟩ := Prod.mk.inj same
  have read : right.hart.registers = left.hart.registers := by
    apply RegisterFile.ext_read
    intro register
    have named : register = .ofNat register.index.toNat := by
      rw [Register.ofNat, BitVec.ofNat_toNat, BitVec.setWidth_eq]
    rw [named]
    exact (congrFun registers ⟨register.index.toNat, register.index.isLt⟩).symm
  refine ⟨?_, memory⟩
  calc right.hart
    _ = ⟨right.hart.registers, right.hart.pc, right.hart.mode, right.hart.counters⟩ := rfl
    _ = ⟨left.hart.registers, left.hart.pc, left.hart.mode, right.hart.counters⟩ := by
      rw [read, mode, ← pc]

theorem alike_of_state {first second : Nat} (left : Steps first machine next)
    (right : Steps second machine final) (same : next.state = final.state) : Alike next final :=
  .of_state same (right.mode.trans left.mode.symm) (right.memory.trans left.memory.symm)

/-- Steps that come back to a state go round from there on, so those that leave memory do not. -/
theorem Steps.count_le_card (steps : Steps count machine final) (outside : final.inside = false) :
    count ≤ Fintype.card (Word × (Fin 32 → Word)) := by
  by_contra more
  have visited (index : Fin (Fintype.card (Word × (Fin 32 → Word)) + 1)) :
      ∃ middle, Steps index machine middle ∧ Steps (count - index) middle final := by
    have total : count = index + (count - index) := by omega
    rw [total] at steps
    exact steps.split
  choose visit front back using visited
  obtain ⟨left, right, different, same⟩ :=
    Fintype.exists_ne_map_eq_of_card_lt (fun index => (visit index).state) (by simp)
  -- What follows the one visit follows the other too, and leaves memory after as many steps.
  obtain ⟨other, again, alike⟩ := (alike_of_state (front left) (front right) same).steps (back left)
  have outsideToo : other.inside = false := alike.inside.trans outside
  have shorter := (back right).count_le_of_outside outside again
  have longer := again.count_le_of_outside outsideToo (back right)
  exact different (Fin.ext (by omega))

/-- A run ends where single steps leave memory, and if they never do, it has no end. -/
theorem run_eq_some_iff :
    machine.run = some final ↔ ∃ count, Steps count machine final ∧ final.inside = false := by
  constructor
  · intro ended
    obtain ⟨budget, completed⟩ := runFor_of_run ended
    obtain ⟨count, _, steps, outside⟩ := runFor_eq_completed_iff.mp completed
    exact ⟨count, steps, outside⟩
  · intro ⟨count, steps, outside⟩
    have enough := steps.count_le_card outside
    rw [card_state] at enough
    unfold run
    generalize stateCount = budget at enough
    rw [runFor_of_steps_outside steps outside enough]

theorem run_eq_some_iff_runFor :
    machine.run = some final ↔ ∃ budget, machine.runFor budget = (.completed, final) := by
  rw [run_eq_some_iff]
  constructor
  · intro ⟨count, steps, outside⟩
    exact ⟨count, runFor_of_steps_outside steps outside (Nat.le_refl count)⟩
  · intro ⟨budget, completed⟩
    obtain ⟨count, _, steps, outside⟩ := runFor_eq_completed_iff.mp completed
    exact ⟨count, steps, outside⟩

end Machine

end WordHart
