import Mathlib
import WordHart.Proofs.EndlessRuns
import WordHart.Proofs.ModeSwitches

namespace WordHart

namespace Hart

variable {hart : Hart} {instruction : Instruction} {register : Register}

theorem wired_of_ne_x0 (hart : Hart) (ordinary : register ≠ .x0) :
    ¬ hart.wired register = true :=
  fun wired => ordinary (wired_iff.mp wired).2

theorem read_of_ne_x0 (hart : Hart) (ordinary : register ≠ .x0) :
    hart.read register = hart.registers.read register :=
  if_neg (hart.wired_of_ne_x0 ordinary)

theorem execute_of_jal (hart : Hart) (jumps : instruction.opcode = .jal) :
    hart.execute instruction =
      (.executed instruction, hart.jump instruction.rd (hart.pc + instruction.imm)) := by
  simp only [execute, effect, jumps]

/-- Where the link leaves the base alone, or comes too late for it, the base is read as it was. -/
theorem indirectTarget_of_apart
    (apart : instruction.rd ≠ instruction.rs1 ∨ hart.mode.jalrReadsRs1First = true) :
    hart.indirectTarget instruction =
      (hart.read instruction.rs1 + instruction.imm) &&& ~~~1 := by
  unfold indirectTarget
  split
  case isTrue => rfl
  case isFalse late =>
    have other : instruction.rd ≠ instruction.rs1 := apart.resolve_right late
    have kept : (hart.write instruction.rd hart.pc).read instruction.rs1 =
        hart.read instruction.rs1 := by
      rw [read_write]
      exact if_neg fun written => other written.1
    rw [kept]

end Hart

namespace Machine

variable {machine : Machine} {instruction call back : Instruction} {count : Nat}

theorem step_of_jal (fetched : machine.next? = some instruction)
    (jumps : instruction.opcode = .jal) :
    machine.step.1 = .ok (.executed instruction) ∧
      machine.step.2.hart.pc = machine.hart.pc + 1 + instruction.imm ∧
      (instruction.rd ≠ .x0 →
        machine.step.2.hart.registers.read instruction.rd = machine.hart.pc + 1) := by
  rw [step_of_next fetched, Hart.execute_of_jal _ jumps]
  refine ⟨rfl, rfl, fun ordinary => ?_⟩
  have free := machine.hart.advance.wired_of_ne_x0 ordinary
  simp only [Hart.jump, Hart.write_of_not_wired free, RegisterFile.read_write, if_true]
  rfl

/-- A call, a callee of so many cycles that keeps the link, and the return through the link, which
neither moves the target nor writes the link before it has read it. -/
structure Call (machine : Machine) (call : Instruction) (count : Nat) (back : Instruction) :
    Prop where
  fetched : machine.next? = some call
  jumps : call.opcode = .jal
  ordinary : call.rd ≠ .x0
  kept : ∀ cycle, 0 < cycle → cycle ≤ count → ∀ value,
    (machine.stepTimes cycle).2.stored? ≠ some (call.rd, value)
  reached : (machine.stepTimes (count + 1)).2.next? = some back
  returns : back.opcode = .jalr
  base : back.rs1 = call.rd
  unmoved : back.imm = 0
  apart : back.rd ≠ call.rd ∨ machine.hart.mode.jalrReadsRs1First = true

namespace Call

/-- The callee hands the link on to the return. -/
theorem link (called : machine.Call call count back) :
    (machine.stepTimes (count + 1)).2.hart.registers.read call.rd = machine.hart.pc + 1 := by
  obtain ⟨-, -, linked⟩ := step_of_jal called.fetched called.jumps
  rw [← linked called.ordinary]
  exact read_stepTimes_of_not_stored fun cycle within =>
    called.kept (cycle + 1) (Nat.succ_pos cycle) within

theorem pc (called : machine.Call call count back) :
    (machine.stepTimes (count + 2)).2.hart.pc = (machine.hart.pc + 1) &&& ~~~1 := by
  have apart : back.rd ≠ back.rs1 ∨
      (machine.stepTimes (count + 1)).2.hart.advance.mode.jalrReadsRs1First = true := by
    rw [called.base, Hart.advance, mode_stepTimes]
    exact called.apart
  have ordinary : back.rs1 ≠ .x0 := called.base ▸ called.ordinary
  have last : (machine.stepTimes (count + 2)).2 = (machine.stepTimes (count + 1)).2.step.2 :=
    stepTimes_add machine (count + 1) 1
  rw [last, step_of_next called.reached]
  simp only [Hart.execute_of_jalr _ called.returns, Hart.jump]
  rw [Hart.indirectTarget_of_apart apart, Hart.read_of_ne_x0 _ ordinary, called.base,
    called.unmoved]
  exact congrArg (· &&& ~~~1) ((BitVec.add_zero _).trans called.link)

/-- From an even index a return leads back to the call. -/
theorem pc_of_even (called : machine.Call call count back)
    (even : machine.hart.pc.toNat % 2 = 0) :
    (machine.stepTimes (count + 2)).2.hart.pc = machine.hart.pc := by
  apply BitVec.eq_of_toNat_eq
  rw [called.pc, toNat_clearLowest]
  bv_omega

theorem next?_of_even (called : machine.Call call count back)
    (even : machine.hart.pc.toNat % 2 = 0) :
    (machine.stepTimes (count + 2)).2.next? = some call := by
  rw [next?_congr (called.pc_of_even even) (memory_stepTimes machine _), called.fetched]

/-- A call whose callee is the return alone is such a call again when it has come back. -/
theorem again (called : machine.Call call 0 back) (even : machine.hart.pc.toNat % 2 = 0) :
    (machine.stepTimes 2).2.Call call 0 back := by
  have fetched := called.next?_of_even even
  have pc : (machine.stepTimes 2).2.step.2.hart.pc = machine.step.2.hart.pc := by
    rw [(step_of_jal fetched called.jumps).2.1, (step_of_jal called.fetched called.jumps).2.1,
      called.pc_of_even even]
  refine ⟨fetched, called.jumps, called.ordinary, ?_, ?_, called.returns, called.base,
    called.unmoved, ?_⟩
  · intro cycle after within
    omega
  · exact (next?_congr pc (memory_stepTimes machine 2)).trans called.reached
  · rw [mode_stepTimes]
    exact called.apart

theorem inside (called : machine.Call call 0 back) (even : machine.hart.pc.toNat % 2 = 0)
    (count : Nat) : (machine.stepTimes count).2.inside = true := by
  -- One pass through the loop is two cycles, and the next pass starts from the same index.
  induction count using Nat.twoStepInduction generalizing machine with
  | zero => exact inside_of_next called.fetched
  | one => exact inside_of_next called.reached
  | more count inductionHypothesis _ =>
      have evenAgain : (machine.stepTimes 2).2.hart.pc.toNat % 2 = 0 := by
        rw [called.pc_of_even even, even]
      rw [Nat.add_comm, stepTimes_add]
      exact inductionHypothesis (called.again even) evenAgain

end Call

/-- A return leads behind its call from odd indices only. From an even index it leads back to the
call, and if nothing else was called than the return, then no run that gets there has an end. -/
theorem returns_behind_odd_calls (called : machine.Call call count back) :
    let caller := machine.hart.pc
    let returned := (machine.stepTimes (count + 2)).2
    returned.hart.pc.toNat = (caller.toNat + 1) % 2 ^ 32 / 2 * 2 ∧
      (returned.hart.pc = caller + 1 ↔ caller.toNat % 2 = 1) ∧
      (caller.toNat % 2 = 0 →
        returned.hart.pc = caller ∧ returned.step.1 = .ok (.executed call)) ∧
      (caller.toNat % 2 = 0 → count = 0 → ∀ before start, Steps before start machine →
        start.run = none ∧ ∀ limit, (start.runFor limit).1 = .stepLimit) := by
  intro caller returned
  have pc : returned.hart.pc.toNat = (caller.toNat + 1) % 2 ^ 32 / 2 * 2 := by
    rw [called.pc, toNat_clearLowest, BitVec.toNat_add]
    rfl
  refine ⟨pc, ⟨?_, ?_⟩, fun even => ⟨called.pc_of_even even, ?_⟩, ?_⟩
  · intro behind
    rw [behind] at pc
    bv_omega
  · intro odd
    apply BitVec.eq_of_toNat_eq
    rw [pc]
    bv_omega
  · exact (step_of_jal (called.next?_of_even even) called.jumps).1
  · rintro even rfl before start steps
    have endless := run_eq_none_of_steps steps (run_eq_none_iff.mpr (called.inside even))
    exact ⟨endless, exit_runFor_of_endless endless⟩

theorem returns_behind_odd_calls_callee_and_loop :
    let machine : Machine := ⟨{ Hart.new ⟨false, true⟩ with pc := 1 },
      ⟨#[0x00000000, 0x002000ef, 0x00000000, 0x00000000, 0x00500113, 0x000080e7]⟩, {}⟩
    let looping : Machine := ⟨.new {}, ⟨#[0x000000ef, 0x00008067]⟩, {}⟩
    machine.Call (.decode 0x002000ef) 1 (.decode 0x000080e7) ∧
      (machine.stepTimes 3).2.hart.pc.toNat = 2 ∧
      looping.Call (.decode 0x000000ef) 0 (.decode 0x00008067) ∧
      looping.run = none ∧ ∀ limit, (looping.runFor limit).1 = .stepLimit := by
  intro machine looping
  have called : machine.Call (.decode 0x002000ef) 1 (.decode 0x000080e7) := by
    refine ⟨by decide, by decide, by decide, fun cycle after within value equal => ?_, by decide,
      by decide, by decide, by decide, by decide⟩
    obtain rfl : cycle = 1 := Nat.le_antisymm within after
    have stored : (machine.stepTimes 1).2.stored? = some (.ofNat 2, 5) := by decide
    have link := (Prod.mk.inj (Option.some.inj (stored.symm.trans equal))).1
    exact absurd link (by decide)
  have loops : looping.Call (.decode 0x000000ef) 0 (.decode 0x00008067) :=
    ⟨by decide, by decide, by decide, fun cycle after within => by omega, by decide, by decide,
      by decide, by decide, by decide⟩
  obtain ⟨returned, -⟩ := returns_behind_odd_calls called
  obtain ⟨-, -, -, endless⟩ := returns_behind_odd_calls loops
  refine ⟨called, ?_, loops, endless (by decide) rfl 0 looping (.refl looping)⟩
  rw [returned]
  decide

end Machine

end WordHart
