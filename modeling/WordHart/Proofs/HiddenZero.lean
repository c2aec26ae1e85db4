import Mathlib
import WordHart.Proofs.Lockstep

namespace WordHart

namespace Hart

variable {hart left right : Hart} {leftWord rightWord : Word}

theorem read_x0_execute (wiring : hart.mode.hardwireX0 = true) (instruction : Instruction) :
    (hart.execute instruction).2.registers.read .x0 = hart.registers.read .x0 := by
  rw [read_execute]
  apply if_neg
  intro ⟨destination, free⟩
  exact free (wired_iff.mpr ⟨wiring, destination.symm⟩)

theorem read_x0_write (wiring : hart.mode.hardwireX0 = true) (register : Register)
    (value : Word) : (hart.write register value).registers.read .x0 = hart.registers.read .x0 := by
  by_cases wired : hart.wired register = true
  · rw [write_of_wired wired]
  · rw [write_of_not_wired wired, RegisterFile.read_write]
    exact if_neg fun zero => wired (wired_iff.mpr ⟨wiring, zero⟩)

/-- Two harts that wire `x0` are the same but for the words that they hold behind it. -/
structure Veils (leftWord rightWord : Word) (left right : Hart) : Prop where
  agree : Agree {.x0}ᶜ left right
  mode : right.mode = left.mode
  wiring : left.mode.hardwireX0 = true
  leftHeld : left.registers.read .x0 = leftWord
  rightHeld : right.registers.read .x0 = rightWord

namespace Veils

theorem rightWiring (veils : Veils leftWord rightWord left right) :
    right.mode.hardwireX0 = true := by
  rw [veils.mode, veils.wiring]

theorem wired (veils : Veils leftWord rightWord left right) (register : Register) :
    right.wired register = left.wired register := by
  rw [Hart.wired, Hart.wired, veils.mode]

theorem content (veils : Veils leftWord rightWord left right) (register : Register) :
    right.content register = left.content register := by
  rw [Hart.content, Hart.content, veils.mode]
  by_cases zero : register = .x0
  · rw [if_pos ⟨veils.wiring, zero⟩, if_pos ⟨veils.wiring, zero⟩]
  · rw [veils.agree.registers register zero]

theorem read (veils : Veils leftWord rightWord left right) (register : Register) :
    right.read register = left.read register := by
  rw [← ofInt_content, ← ofInt_content, veils.content]

theorem advance (veils : Veils leftWord rightWord left right) :
    Veils leftWord rightWord left.advance right.advance :=
  ⟨veils.agree.advance, veils.mode, veils.wiring, veils.leftHeld, veils.rightHeld⟩

theorem execute (veils : Veils leftWord rightWord left right) (instruction : Instruction) :
    Veils leftWord rightWord (left.execute instruction).2 (right.execute instruction).2 := by
  have leftMode := (left.execute_keeps instruction).1
  have rightMode := (right.execute_keeps instruction).1
  refine ⟨?_, ?_, ?_, ?_, ?_⟩
  · apply veils.agree.execute
    · apply row?_congr veils.agree.pc veils.content
      intro _
      rw [base, base, veils.mode, veils.content]
    · exact fun _ _ _ => .inl (veils.wired instruction.rd)
  · rw [leftMode, rightMode, veils.mode]
  · rw [leftMode, veils.wiring]
  · rw [read_x0_execute veils.wiring, veils.leftHeld]
  · rw [read_x0_execute veils.rightWiring, veils.rightHeld]

theorem write (veils : Veils leftWord rightWord left right) (register : Register) (value : Word) :
    Veils leftWord rightWord (left.write register value) (right.write register value) := by
  refine ⟨⟨?_, ?_, fun other among => ?_⟩, ?_, ?_, ?_, ?_⟩
  · rw [pc_write, pc_write, veils.agree.pc]
  · rw [counters_write, counters_write, veils.agree.counters]
  · unfold Hart.write
    rw [veils.wired]
    split
    case isTrue => exact veils.agree.registers other among
    case isFalse => simp only [RegisterFile.read_write, veils.agree.registers other among]
  · rw [mode_write, mode_write, veils.mode]
  · rw [mode_write, veils.wiring]
  · rw [read_x0_write veils.wiring, veils.leftHeld]
  · rw [read_x0_write veils.rightWiring, veils.rightHeld]

end Veils

end Hart

/-- What can be asked of a machine and of the hart in it. -/
inductive Access where
  | step
  | execute (instruction : Instruction)
  | read (register : Register)
  | write (register : Register) (value : Word)
  | run
  | runFor (budget : Nat)

inductive Answer where
  | stepped (result : Except AccessError Outcome)
  | executed (outcome : Outcome)
  | value (word : Word)
  | written
  | finished (counters : Counters)
  | stopped (runExit : RunExit)

namespace Machine

variable {left right : Machine} {leftWord rightWord : Word}

/-- The answer to an access and the machine after it. A run that does not end gives neither. -/
def respond (machine : Machine) : Access → Option (Answer × Machine)
  | .step => some (.stepped machine.step.1, machine.step.2)
  | .execute instruction =>
      let (outcome, hart) := machine.hart.execute instruction
      some (.executed outcome, { machine with hart })
  | .read register => some (.value (machine.hart.read register), machine)
  | .write register value =>
      some (.written, { machine with hart := machine.hart.write register value })
  | .run => machine.run.map fun final => (.finished final.hart.counters, final)
  | .runFor budget => some (.stopped (machine.runFor budget).1, (machine.runFor budget).2)

/-- The answers to accesses one after another, each with the machine after it. Nothing follows a run
that does not end. -/
def respondAll (machine : Machine) : List Access → List (Answer × Machine)
  | [] => []
  | access :: later =>
      match machine.respond access with
      | some (answer, next) => (answer, next) :: next.respondAll later
      | none => []

/-- Two machines share a memory and are the same but for the words behind a wired `x0`. -/
structure Veils (leftWord rightWord : Word) (left right : Machine) : Prop where
  hart : Hart.Veils leftWord rightWord left.hart right.hart
  memory : right.memory = left.memory

namespace Veils

theorem agree (veils : Veils leftWord rightWord left right) : Agree {.x0}ᶜ left right :=
  ⟨veils.hart.agree, veils.memory⟩

theorem inside (veils : Veils leftWord rightWord left right) : right.inside = left.inside :=
  veils.agree.inside

theorem step (veils : Veils leftWord rightWord left right) :
    right.step.1 = left.step.1 ∧ Veils leftWord rightWord left.step.2 right.step.2 := by
  obtain ⟨outcome, agree⟩ := veils.agree.step fun instruction _ =>
    (veils.hart.advance.execute instruction).agree
  obtain ⟨leftMode, leftKept⟩ := left.hart.step_keeps left.memory
  obtain ⟨rightMode, rightKept⟩ := right.hart.step_keeps right.memory
  refine ⟨outcome, ⟨agree.hart, ?_, ?_, ?_, ?_⟩, agree.memory⟩
  · exact rightMode.trans (veils.hart.mode.trans leftMode.symm)
  · rw [mode_step, veils.hart.wiring]
  · exact (leftKept veils.hart.wiring).trans veils.hart.leftHeld
  · exact (rightKept veils.hart.rightWiring).trans veils.hart.rightHeld

theorem runFor (veils : Veils leftWord rightWord left right) (budget : Nat) :
    (right.runFor budget).1 = (left.runFor budget).1 ∧
      Veils leftWord rightWord (left.runFor budget).2 (right.runFor budget).2 := by
  have kept (left right : Machine) (veils : Veils leftWord rightWord left right) (_ : True) :=
    veils.step
  exact runFor_lockstep kept (fun _ _ => Veils.inside) veils fun _ _ => trivial

theorem run (veils : Veils leftWord rightWord left right) :
    Option.Rel (Veils leftWord rightWord) left.run right.run := by
  unfold Machine.run
  generalize stateCount = budget
  obtain ⟨runExit, final⟩ := veils.runFor budget
  cases leftRun : left.runFor budget with
  | mk leftExit leftFinal =>
      cases rightRun : right.runFor budget with
      | mk rightExit rightFinal =>
          rw [leftRun, rightRun] at runExit final
          cases runExit
          cases leftExit with
          | completed => exact .some final
          | stepLimit => exact .none

theorem respond (veils : Veils leftWord rightWord left right) (access : Access) :
    Option.Rel (fun left right => right.1 = left.1 ∧ Veils leftWord rightWord left.2 right.2)
      (left.respond access) (right.respond access) := by
  cases access with
  | step =>
      obtain ⟨outcome, next⟩ := veils.step
      exact .some ⟨congrArg Answer.stepped outcome, next⟩
  | execute instruction =>
      have outcome := Hart.outcome_execute_eq left.hart right.hart instruction
      exact .some ⟨congrArg Answer.executed outcome, veils.hart.execute instruction, veils.memory⟩
  | read register => exact .some ⟨congrArg Answer.value (veils.hart.read register), veils⟩
  | write register value => exact .some ⟨rfl, veils.hart.write register value, veils.memory⟩
  | run =>
      have ended := veils.run
      unfold Machine.respond
      cases leftRun : left.run <;> cases rightRun : right.run <;> rw [leftRun, rightRun] at ended
      · exact .none
      · cases ended
      · cases ended
      · cases ended with
        | some final => exact .some ⟨congrArg Answer.finished final.agree.hart.counters, final⟩
  | runFor budget =>
      obtain ⟨runExit, final⟩ := veils.runFor budget
      exact .some ⟨congrArg Answer.stopped runExit, final⟩

end Veils

/-- However two machines are used that differ behind a wired `x0` only, they answer alike, and each
keeps its own word there. -/
theorem respondAll_hides_x0 (veils : Veils leftWord rightWord left right)
    (accesses : List Access) :
    List.Forall₂ (fun left right => right.1 = left.1 ∧ Veils leftWord rightWord left.2 right.2)
      (left.respondAll accesses) (right.respondAll accesses) := by
  induction accesses generalizing left right with
  | nil => exact .nil
  | cons access later inductionHypothesis =>
      have answered := veils.respond access
      unfold respondAll
      cases leftReply : left.respond access <;> cases rightReply : right.respond access <;>
        rw [leftReply, rightReply] at answered
      · exact .nil
      · cases answered
      · cases answered
      · cases answered with
        | some both => exact .cons both (inductionHypothesis both.2)

theorem respondAll_hides_x0_two_stale_words :
    let left : Machine :=
      ⟨{ Hart.new ⟨true, false⟩ with registers := RegisterFile.zero.write .x0 7 },
        ⟨#[0x00000033, 0x00100067]⟩, {}⟩
    let right : Machine :=
      { left with hart := { left.hart with registers := RegisterFile.zero.write .x0 9 } }
    let accesses : List Access := [.write .x0 5, .read .x0, .step, .execute (.decode 0x000000b3),
      .runFor 3, .run]
    Veils 7 9 left right ∧
      List.Forall₂ (fun left right => right.1 = left.1 ∧ Veils 7 9 left.2 right.2)
        (left.respondAll accesses) (right.respondAll accesses) := by
  intro left right accesses
  have same (register : Register) (other : register ≠ .x0) :
      right.hart.registers.read register = left.hart.registers.read register := by
    simp only [left, right, RegisterFile.read_write, if_neg other.symm]
  have veils : Veils 7 9 left right :=
    ⟨⟨⟨rfl, rfl, same⟩, rfl, rfl, by decide, by decide⟩, rfl⟩
  exact ⟨veils, respondAll_hides_x0 veils accesses⟩

end Machine

end WordHart
