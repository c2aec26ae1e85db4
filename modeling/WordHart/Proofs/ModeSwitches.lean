import Mathlib
import WordHart.Proofs.Lockstep

namespace WordHart

theorem getLsbD_clearLowest (word : Word) (bit : Nat) :
    (word &&& ~~~1).getLsbD bit = (decide (bit ≠ 0) && word.getLsbD bit) := by
  rw [clearLowest_eq_append, BitVec.getLsbD_append, BitVec.getLsbD_extractLsb']
  by_cases lowest : bit = 0
  · simp [lowest]
  · have position : 1 + (bit - 1) = bit := by omega
    have above : ¬ bit < 1 := by omega
    by_cases inside : bit < 32
    · have within : bit - 1 < 31 := by omega
      simp [lowest, above, within, position]
    · simp [lowest, above, position, BitVec.getLsbD_of_ge word bit (Nat.le_of_not_lt inside)]

/-- Clearing the lowest bit of two words leaves the same if they differ in no other bit. -/
theorem clearLowest_eq_iff (left right : Word) :
    left &&& ~~~1 = right &&& ~~~1 ↔
      ∀ bit, bit ≠ 0 → left.getLsbD bit = right.getLsbD bit := by
  constructor
  · intro same bit above
    have bits := congrArg (BitVec.getLsbD · bit) same
    simpa only [getLsbD_clearLowest, above, ne_eq, not_false_eq_true, decide_true, Bool.true_and]
      using bits
  · intro agree
    apply BitVec.eq_of_getLsbD_eq
    intro bit _
    rw [getLsbD_clearLowest, getLsbD_clearLowest]
    by_cases lowest : bit = 0
    · simp [lowest]
    · rw [agree bit lowest]

namespace Hart

variable {hart : Hart} {instruction : Instruction}

theorem execute_of_jalr (hart : Hart) (jumps : instruction.opcode = .jalr) :
    (hart.execute instruction).2 =
      hart.jump instruction.rd (hart.indirectTarget instruction) := by
  simp only [execute, effect, jumps]

theorem result?_of_jalr (hart : Hart) (jumps : instruction.opcode = .jalr) :
    hart.result? instruction = some hart.pc := by
  have found : Mnemonic.ofInstruction? instruction = some .jalr := by
    unfold Mnemonic.ofInstruction?
    rw [jumps]
  simp only [result?, row?, found, Option.map_some, row, ofInt_toNat]

/-- Unless the link goes over the base, the base is read from its register in either order. -/
theorem base_of_apart {rd rs1 : Register} (apart : rs1 = rd → hart.wired rd = true) (link : Int) :
    hart.base link rd rs1 = hart.content rs1 :=
  if_neg fun both => both.2.1 (wired_iff.mp (apart both.1))

theorem indirectTarget_of_linked (linked : instruction.rd = instruction.rs1)
    (unwired : hart.wired instruction.rd = false) :
    hart.indirectTarget instruction =
      ((if hart.mode.jalrReadsRs1First then hart.registers.read instruction.rs1 else hart.pc) +
        instruction.imm) &&& ~~~1 := by
  have old : hart.read instruction.rs1 = hart.registers.read instruction.rs1 := by
    rw [read, ← linked, unwired]
    rfl
  have new : (hart.write instruction.rd hart.pc).read instruction.rs1 = hart.pc := by
    rw [read_write]
    exact if_pos ⟨linked, by simp [unwired]⟩
  simp only [indirectTarget, old, new]

end Hart

namespace Machine

variable {machine left right free strict : Machine} {instruction : Instruction}

/-- The next cycle is an indirect jump whose link replaces its own base. -/
def linksOverBase (machine : Machine) : Bool :=
  machine.next?.any fun instruction =>
    instruction.opcode = .jalr && instruction.rd = instruction.rs1 &&
      !machine.hart.wired instruction.rd

/-- The second machine is the first with `x0` wired, and `x0` holds zero without that as well. -/
structure Wires (free strict : Machine) : Prop where
  agree : Agree Set.univ free strict
  unwired : free.hart.mode.hardwireX0 = false
  wired : strict.hart.mode.hardwireX0 = true
  order : strict.hart.mode.jalrReadsRs1First = free.hart.mode.jalrReadsRs1First
  zero : free.hart.registers.read .x0 = 0

namespace Wires

theorem content (wires : Wires free strict) (register : Register) :
    strict.hart.content register = free.hart.content register := by
  have same := wires.agree.hart.registers register (Set.mem_univ register)
  simp only [Hart.content, wires.wired, wires.unwired, true_and, Bool.false_eq_true, false_and,
    if_false]
  by_cases zero : register = .x0
  · rw [if_pos zero, zero, wires.zero]
    rfl
  · rw [if_neg zero, same]

/-- A link that is written to `x0` is zero, so that it is what a wired `x0` reads as. -/
theorem base (wires : Wires free strict) {link : Word} {rd : Register}
    (clean : rd = .x0 → link = 0) (rs1 : Register) :
    strict.hart.base link.toNat rd rs1 = free.hart.base link.toNat rd rs1 := by
  simp only [Hart.base, wires.content, wires.wired, wires.unwired, wires.order]
  by_cases zero : rd = .x0
  · have content : free.hart.content .x0 = 0 := by
      simp [Hart.content, wires.zero]
    by_cases same : rs1 = rd
    · simp [zero, same, clean zero, content]
    · simp [same]
  · simp [zero]

theorem execute (wires : Wires free strict)
    (clean : ∀ value, free.stored? = some (.x0, value) → value = 0)
    (fetched : free.next? = some instruction) :
    Hart.Agree Set.univ (free.hart.advance.execute instruction).2
      (strict.hart.advance.execute instruction).2 := by
  have cleared (value : Word) (written : free.hart.advance.result? instruction = some value)
      (zero : instruction.rd = .x0) : value = 0 := by
    apply clean
    rw [stored?_of_next fetched, written, Option.map_some, zero]
  apply wires.agree.hart.advance.execute
  · apply Hart.row?_congr wires.agree.hart.advance.pc wires.content
    intro jumps
    exact wires.base (cleared _ (Hart.result?_of_jalr _ jumps)) instruction.rs1
  · intro value _ written
    by_cases zero : instruction.rd = .x0
    · right
      rw [cleared value written zero, zero]
      exact wires.zero.symm
    · left
      simp [Hart.wired, zero]

theorem step (wires : Wires free strict)
    (clean : ∀ value, free.stored? = some (.x0, value) → value = 0) :
    strict.step.1 = free.step.1 ∧ Wires free.step.2 strict.step.2 := by
  obtain ⟨outcome, agree⟩ := wires.agree.step fun instruction fetched =>
    wires.execute clean fetched
  refine ⟨outcome, agree, ?_, ?_, ?_, ?_⟩
  · rw [mode_step, wires.unwired]
  · rw [mode_step, wires.wired]
  · rw [mode_step, mode_step, wires.order]
  · rw [read_step]
    split
    case h_1 target value stored =>
      split
      case isTrue written =>
        apply clean
        rw [stored, written.1]
      case isFalse => exact wires.zero
    case h_2 => exact wires.zero

theorem inside (wires : Wires free strict) : strict.inside = free.inside := wires.agree.inside

end Wires

/-- A program that writes nothing but zeros to `x0` runs alike whether `x0` is wired or not. -/
theorem wiring_unseen_until_stored (wires : Wires free strict) (count : Nat)
    (clean : ∀ earlier < count, ∀ value,
      (free.stepTimes earlier).2.stored? = some (.x0, value) → value = 0) :
    (strict.stepTimes count).1 = (free.stepTimes count).1 ∧
      Agree Set.univ (free.stepTimes count).2 (strict.stepTimes count).2 ∧
      (strict.runFor count).1 = (free.runFor count).1 := by
  obtain ⟨outcomes, final⟩ := stepTimes_lockstep (fun _ _ => Wires.step) wires clean
  have ran := runFor_lockstep (fun _ _ => Wires.step) (fun _ _ => Wires.inside) wires clean
  exact ⟨outcomes, final.agree, ran.1⟩

theorem wiring_unseen_until_stored_zero_written :
    let free : Machine := ⟨.new ⟨false, false⟩, ⟨#[0x40000033, 0x00500113, 0x006000e7]⟩, {}⟩
    let strict : Machine := { free with hart := .new ⟨true, false⟩ }
    Wires free strict ∧ free.stored? = some (.x0, 0) ∧
      (strict.stepTimes 3).1 = (free.stepTimes 3).1 ∧
      Agree Set.univ (free.stepTimes 3).2 (strict.stepTimes 3).2 ∧
      (strict.runFor 3).1 = (free.runFor 3).1 := by
  intro free strict
  have wires : Wires free strict := ⟨⟨⟨rfl, rfl, fun _ _ => rfl⟩, rfl⟩, rfl, rfl, rfl, by decide⟩
  have first : free.stored? = some (.x0, 0) := by decide
  have second : (free.stepTimes 1).2.stored? = some (.ofNat 2, 5) := by decide
  have third : (free.stepTimes 2).2.stored? = some (.ofNat 1, 3) := by decide
  refine ⟨wires, first, wiring_unseen_until_stored wires 3 fun earlier within value stored => ?_⟩
  interval_cases earlier
  · exact (Prod.mk.inj (Option.some.inj (first.symm.trans stored))).2.symm
  · exact absurd (second.symm.trans stored) (by simp [Register.ofNat, Register.x0])
  · exact absurd (third.symm.trans stored) (by simp [Register.ofNat, Register.x0])

theorem linksOverBase_of_next (fetched : machine.next? = some instruction) :
    machine.linksOverBase = true ↔
      instruction.opcode = .jalr ∧ instruction.rd = instruction.rs1 ∧
        machine.hart.wired instruction.rd = false := by
  simp [linksOverBase, fetched, and_assoc]

/-- The second machine is the first in a mode that may order indirect jumps differently. -/
structure Reorders (left right : Machine) : Prop where
  agree : Agree Set.univ left right
  wiring : right.hart.mode.hardwireX0 = left.hart.mode.hardwireX0

namespace Reorders

theorem wired (reorders : Reorders left right) (register : Register) :
    right.hart.wired register = left.hart.wired register := by
  rw [Hart.wired, Hart.wired, reorders.wiring]

theorem content (reorders : Reorders left right) (register : Register) :
    right.hart.content register = left.hart.content register := by
  simp only [Hart.content, reorders.wiring,
    reorders.agree.hart.registers register (Set.mem_univ register)]

theorem execute (reorders : Reorders left right) (apart : left.linksOverBase = false)
    (fetched : left.next? = some instruction) :
    Hart.Agree Set.univ (left.hart.advance.execute instruction).2
      (right.hart.advance.execute instruction).2 := by
  apply reorders.agree.hart.advance.execute
  · apply Hart.row?_congr reorders.agree.hart.advance.pc reorders.content
    intro jumps
    have wired (same : instruction.rs1 = instruction.rd) :
        left.hart.wired instruction.rd = true := by
      by_contra unwired
      have links := (linksOverBase_of_next fetched).mpr
        ⟨jumps, same.symm, Bool.eq_false_of_not_eq_true unwired⟩
      rw [apart] at links
      contradiction
    have wiredToo (same : instruction.rs1 = instruction.rd) :
        right.hart.wired instruction.rd = true := (reorders.wired _).trans (wired same)
    exact (Hart.base_of_apart wiredToo _).trans
      ((reorders.content _).trans (Hart.base_of_apart wired _).symm)
  · exact fun _ _ _ => .inl (reorders.wired instruction.rd)

theorem step (reorders : Reorders left right) (apart : left.linksOverBase = false) :
    right.step.1 = left.step.1 ∧ Reorders left.step.2 right.step.2 := by
  obtain ⟨outcome, agree⟩ := reorders.agree.step fun instruction fetched =>
    reorders.execute apart fetched
  refine ⟨outcome, agree, ?_⟩
  rw [mode_step, mode_step, reorders.wiring]

theorem inside (reorders : Reorders left right) : right.inside = left.inside :=
  reorders.agree.inside

end Reorders

theorem step_of_linksOverBase (fetched : machine.next? = some instruction)
    (links : machine.linksOverBase = true) :
    machine.step.2.hart.registers =
        machine.hart.registers.write instruction.rd (machine.hart.pc + 1) ∧
      machine.step.2.hart.pc =
        ((if machine.hart.mode.jalrReadsRs1First then machine.hart.registers.read instruction.rs1
          else machine.hart.pc + 1) + instruction.imm) &&& ~~~1 := by
  obtain ⟨jumps, linked, unwired⟩ := (linksOverBase_of_next fetched).mp links
  rw [step_of_next fetched]
  simp only [Hart.execute_of_jalr _ jumps]
  constructor
  · have free : ¬ machine.hart.advance.wired instruction.rd = true := by
      rw [Bool.not_eq_true]
      exact unwired
    rw [Hart.jump, Hart.write_of_not_wired free]
    rfl
  · exact Hart.indirectTarget_of_linked linked unwired

/-- Both orders of an indirect jump that links over its base write the link, and they go to the same
place if the two bases lead to targets that differ in the lowest bit at most. -/
theorem Reorders.step_of_linksOverBase (reorders : Reorders left right)
    (differ : right.hart.mode.jalrReadsRs1First ≠ left.hart.mode.jalrReadsRs1First)
    (fetched : left.next? = some instruction) (links : left.linksOverBase = true) :
    right.step.2.hart.registers = left.step.2.hart.registers ∧
      (right.step.2.hart.pc = left.step.2.hart.pc ↔ ∀ bit, bit ≠ 0 →
        (left.hart.pc + 1 + instruction.imm).getLsbD bit =
          (left.hart.registers.read instruction.rs1 + instruction.imm).getLsbD bit) := by
  have fetchedToo : right.next? = some instruction := reorders.agree.next?.trans fetched
  have linksToo : right.linksOverBase = true := by
    rw [linksOverBase_of_next fetchedToo, reorders.wired, ← linksOverBase_of_next fetched, links]
  obtain ⟨leftWritten, leftTarget⟩ := Machine.step_of_linksOverBase fetched links
  obtain ⟨rightWritten, rightTarget⟩ := Machine.step_of_linksOverBase fetchedToo linksToo
  rw [leftWritten, rightWritten, leftTarget, rightTarget, reorders.agree.registers_eq,
    reorders.agree.hart.pc]
  refine ⟨rfl, ?_⟩
  cases late : left.hart.mode.jalrReadsRs1First with
  | false =>
      rw [late, ne_eq, Bool.not_eq_false] at differ
      rw [if_pos differ, if_neg Bool.false_ne_true, eq_comm]
      exact clearLowest_eq_iff _ _
  | true =>
      rw [late, ne_eq, Bool.not_eq_true] at differ
      rw [differ, if_neg Bool.false_ne_true, if_pos rfl]
      exact clearLowest_eq_iff _ _

/-- Two orders of indirect jumps run alike until a link goes over its own base. -/
theorem order_unseen_until_linked (reorders : Reorders left right) :
    (∀ count, (∀ earlier < count, (left.stepTimes earlier).2.linksOverBase = false) →
      (right.stepTimes count).1 = (left.stepTimes count).1 ∧
        Agree Set.univ (left.stepTimes count).2 (right.stepTimes count).2 ∧
        (right.runFor count).1 = (left.runFor count).1) ∧
    (∀ instruction, left.next? = some instruction → left.linksOverBase = true →
      right.hart.mode.jalrReadsRs1First ≠ left.hart.mode.jalrReadsRs1First →
      right.step.2.hart.registers = left.step.2.hart.registers ∧
        (right.step.2.hart.pc = left.step.2.hart.pc ↔ ∀ bit, bit ≠ 0 →
          (left.hart.pc + 1 + instruction.imm).getLsbD bit =
            (left.hart.registers.read instruction.rs1 + instruction.imm).getLsbD bit)) := by
  constructor
  · intro count apart
    obtain ⟨outcomes, final⟩ := stepTimes_lockstep (fun _ _ => Reorders.step) reorders apart
    have ran :=
      runFor_lockstep (fun _ _ => Reorders.step) (fun _ _ => Reorders.inside) reorders apart
    exact ⟨outcomes, final.agree, ran.1⟩
  · intro instruction fetched links differ
    exact reorders.step_of_linksOverBase differ fetched links

theorem order_unseen_until_linked_neighbouring_targets :
    let late : Machine := ⟨.new ⟨false, false⟩, ⟨#[0x00300093, 0x002080e7]⟩, {}⟩
    let early : Machine := { late with hart := .new ⟨false, true⟩ }
    (early.stepTimes 1).1 = (late.stepTimes 1).1 ∧
      late.step.2.linksOverBase = true ∧ late.step.2.hart.registers.read (.ofNat 1) = 3 ∧
      early.step.2.step.2.hart.pc = late.step.2.step.2.hart.pc := by
  intro late early
  have start : Reorders late early := ⟨⟨⟨rfl, rfl, fun _ _ => rfl⟩, rfl⟩, rfl⟩
  have apart : ∀ earlier < 1, (late.stepTimes earlier).2.linksOverBase = false := by decide
  obtain ⟨outcomes, agree, _⟩ := (order_unseen_until_linked start).1 1 apart
  have links : late.step.2.linksOverBase = true := by decide
  have moved : Reorders late.step.2 early.step.2 := ⟨agree, by decide⟩
  have jump := (order_unseen_until_linked moved).2 (.decode 0x002080e7) (by decide) links
    (by decide)
  refine ⟨outcomes, links, by decide, jump.2.mpr ?_⟩
  -- Link and base differ, and with the immediate they make four and five.
  have four : late.step.2.hart.pc + 1 + (Instruction.decode 0x002080e7).imm = 4 := by decide
  have five : late.step.2.hart.registers.read (Instruction.decode 0x002080e7).rs1 +
      (Instruction.decode 0x002080e7).imm = 5 := by decide
  rw [four, five]
  exact (clearLowest_eq_iff 4 5).mp (by decide)

end Machine

end WordHart
