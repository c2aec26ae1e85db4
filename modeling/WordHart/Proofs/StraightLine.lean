import Mathlib
import WordHart.Proofs.Cycle
import WordHart.Proofs.Recurrence

namespace WordHart

namespace Word

variable {word : Word} {mnemonic : Mnemonic}

def jumps (word : Word) : Prop := word.field 0 7 = 0b1101111 ∨ word.field 0 7 = 0b1100111

instance : DecidablePred jumps := fun _ => inferInstanceAs (Decidable (_ ∨ _))

def computes (word : Word) : Bool :=
  [.lui, .auipc, .addi, .add, .sub].any (Mnemonic.ofWord? word = some ·)

theorem field_opcode (found : Mnemonic.ofWord? word = some mnemonic) :
    word.field 0 7 = mnemonic.opcode.bits.toNat := by
  have opcode : (Instruction.decode word).opcode = mnemonic.opcode :=
    Mnemonic.opcode_of_ofInstruction? ((Mnemonic.ofInstruction?_decode word).trans found)
  rw [← toNat_extractLsb']
  exact Opcode.toNat_of_ofBits opcode

theorem no_jump_of_straight (straight : ¬ word.jumps)
    (found : Mnemonic.ofWord? word = some mnemonic) : mnemonic ≠ .jal ∧ mnemonic ≠ .jalr := by
  constructor
  · rintro rfl
    exact straight (.inl (field_opcode found))
  · rintro rfl
    exact straight (.inr (field_opcode found))

theorem computes_of_mnemonic (found : Mnemonic.ofWord? word = some mnemonic)
    (straight : mnemonic ≠ .jal ∧ mnemonic ≠ .jalr) : word.computes = true := by
  cases mnemonic with
  | jal => exact absurd rfl straight.1
  | jalr => exact absurd rfl straight.2
  | _ => simp [computes, found]

theorem computes_of_no_mnemonic (missing : Mnemonic.ofWord? word = none) :
    word.computes = false := by
  simp [computes, missing]

end Word

/-- The counters after a cycle for each of the given words, where none of them jumps. -/
def Counters.after (counters : Counters) (program : List Word) : Counters :=
  ⟨counters.cycles + BitVec.ofNat 64 program.length,
    counters.executed + BitVec.ofNat 64 (program.countP (·.computes)),
    counters.ignored + BitVec.ofNat 64 (program.countP (!·.computes))⟩

theorem Counters.after_cons (counters : Counters) (word : Word) (program : List Word) :
    counters.after (word :: program) = (counters.after [word]).after program := by
  rw [← List.singleton_append]
  simp only [after, List.length_append, List.countP_append, BitVec.ofNat_add, BitVec.add_assoc]

namespace Hart

theorem target_row (hart : Hart) (link : Int) (rd rs1 rs2 : Register) (imm : Int)
    {mnemonic : Mnemonic} (straight : mnemonic ≠ .jal ∧ mnemonic ≠ .jalr) :
    (hart.row link rd rs1 rs2 imm mnemonic).target = link := by
  cases mnemonic with
  | jal => exact absurd rfl straight.1
  | jalr => exact absurd rfl straight.2
  | _ => rfl

/-- A cycle that fetches a word that is no jump goes on to the next one and counts it. -/
theorem step_of_straight (hart : Hart) {memory : Memory} {word : Word}
    (loaded : memory.load hart.pc = .ok word) (straight : ¬ word.jumps) :
    ∃ outcome next, hart.step memory = (.ok outcome, next) ∧
      outcome.instruction = .decode word ∧ next.pc = hart.pc + 1 ∧
      next.counters = hart.counters.after [word] := by
  cases found : Mnemonic.ofWord? word with
  | none =>
      have computes := Word.computes_of_no_mnemonic found
      obtain ⟨reason, stepped⟩ := step_of_no_mnemonic loaded found
      refine ⟨_, _, stepped, rfl, rfl, ?_⟩
      simp [Counters.after, computes]
  | some mnemonic =>
      have noJump := Word.no_jump_of_straight straight found
      have computes := Word.computes_of_mnemonic found noJump
      obtain ⟨next, stepped, counted, followed⟩ := step_of_mnemonic loaded found
      refine ⟨_, next, stepped, rfl, ?_, ?_⟩
      · have link : ((hart.pc + 1).toNat : Int) = (hart.pc.toNat + 1) % 2 ^ 32 := by
          rw [BitVec.toNat_add]
          rfl
        rw [followed.pc, target_row hart _ _ _ _ _ noJump, ← link, ofInt_toNat]
      · rw [counted]
        simp [Counters.after, computes]

end Hart

namespace Machine

variable {machine final : Machine} {word : Word} {program : List Word} {count : Nat}

/-- Single steps fetch the given words, each from the index after the one before. -/
structure Passes (machine : Machine) (program : List Word) : Prop where
  fetched : ∃ outcomes : List Outcome, (machine.stepTimes program.length).1 = outcomes.map .ok ∧
    outcomes.map (·.instruction) = program.map .decode
  pc : ∀ earlier ≤ program.length,
    (machine.stepTimes earlier).2.hart.pc.toNat = machine.hart.pc.toNat + earlier
  counters : (machine.stepTimes program.length).2.hart.counters =
    machine.hart.counters.after program

theorem Passes.nil (machine : Machine) : machine.Passes [] := by
  refine ⟨⟨[], rfl, rfl⟩, ?_, ?_⟩
  · intro earlier bound
    rw [Nat.le_zero.mp bound]
    rfl
  · simp [stepTimes, Counters.after]

theorem Passes.cons {outcome : Outcome} {next : Machine}
    (stepped : machine.step = (.ok outcome, next)) (decoded : outcome.instruction = .decode word)
    (moved : next.hart.pc.toNat = machine.hart.pc.toNat + 1)
    (counted : next.hart.counters = machine.hart.counters.after [word])
    (rest : next.Passes program) : machine.Passes (word :: program) := by
  obtain ⟨outcomes, results, fetched⟩ := rest.fetched
  refine ⟨⟨outcome :: outcomes, ?_, ?_⟩, ?_, ?_⟩
  · simp [stepTimes, stepped, results]
  · simp [decoded, fetched]
  · intro earlier bound
    cases earlier with
    | zero => rfl
    | succ earlier =>
        have reached := rest.pc earlier (Nat.le_of_succ_le_succ bound)
        rw [moved, Nat.add_right_comm] at reached
        rw [stepTimes, stepped]
        exact reached
  · rw [Counters.after_cons, ← counted, ← rest.counters, List.length_cons, stepTimes, stepped]

/-- The words from the program counter on, none of which jumps, are fetched one by one. -/
theorem passes_straight (small : machine.memory.size < 2 ^ 32)
    (stored : machine.memory.words.drop machine.hart.pc.toNat = program)
    (straight : ∀ word ∈ program, ¬ word.jumps) : machine.Passes program := by
  induction program generalizing machine with
  | nil => exact .nil machine
  | cons word program inductionHypothesis =>
      have present : machine.memory.words[machine.hart.pc.toNat]? = some word := by
        rw [← List.head?_drop, stored, List.head?_cons]
      have later : machine.memory.words.drop (machine.hart.pc.toNat + 1) = program := by
        rw [← List.tail_drop, stored, List.tail_cons]
      have inside := (List.getElem?_eq_some_iff.mp present).1
      rw [Memory.length_words] at inside
      obtain ⟨outcome, hart, fetched, decoded, moved, counted⟩ := machine.hart.step_of_straight
        (Memory.load_of_words present) (straight word List.mem_cons_self)
      have stepped : machine.step = (.ok outcome, { machine with hart }) := by
        rw [step, fetched]
      have onward : hart.pc.toNat = machine.hart.pc.toNat + 1 := by
        rw [moved, BitVec.toNat_add]
        exact Nat.mod_eq_of_lt (Nat.lt_of_le_of_lt inside small)
      refine .cons stepped decoded onward counted (inductionHypothesis small ?_ ?_)
      · rw [onward]
        exact later
      · exact fun other among => straight other (List.mem_cons_of_mem word among)

theorem Passes.inside (passes : machine.Passes program)
    (ends : machine.hart.pc.toNat + program.length = machine.memory.size) {earlier : Nat}
    (bound : earlier ≤ program.length) :
    (machine.stepTimes earlier).2.inside = decide (earlier < program.length) := by
  have reached := passes.pc earlier bound
  rw [Machine.inside, Memory.contains, memory_stepTimes, reached, ← ends, decide_eq_decide]
  exact Nat.add_lt_add_iff_left

theorem Passes.runFor (passes : machine.Passes program)
    (ends : machine.hart.pc.toNat + program.length = machine.memory.size) (budget : Nat) :
    machine.runFor budget =
      if program.length ≤ budget then (.completed, (machine.stepTimes program.length).2)
      else (.stepLimit, (machine.stepTimes budget).2) := by
  split
  case isTrue enough =>
    obtain ⟨rest, rfl⟩ := Nat.exists_eq_add_of_le enough
    have outside := passes.inside ends (Nat.le_refl _)
    rw [decide_eq_false (Nat.lt_irrefl _)] at outside
    have passed : machine.runFor program.length =
        (.completed, (machine.stepTimes program.length).2) := by
      rw [runFor_eq_stepTimes, outside]
      rfl
    rw [runFor_add, passed, runFor_of_outside outside]
  case isFalse few =>
    have fewer := Nat.lt_of_not_le few
    rw [runFor_eq_stepTimes, passes.inside ends (Nat.le_of_lt fewer), decide_eq_true fewer]
    rfl

theorem Steps.inside_of_large (steps : Steps count machine final)
    (large : 2 ^ 32 ≤ machine.memory.size) : final.inside = true := by
  rw [← steps.memory] at large
  exact decide_eq_true (Nat.lt_of_lt_of_le final.hart.pc.isLt large)

/-- Without jumps a run fetches each word from the program counter on once and ends behind the last
one, unless memory has a word for every program counter; then no run ends, jumps or not. -/
theorem run_straight_line (machine : Machine) :
    let start := machine.hart.pc.toNat
    let size := machine.memory.size
    let program := machine.memory.words.drop start
    let final := (machine.stepTimes program.length).2
    (start ≤ size → size < 2 ^ 32 → (∀ word ∈ program, ¬ word.jumps) →
      machine.Passes program ∧ machine.run = some final ∧ final.hart.pc.toNat = size ∧
        ∀ budget, (machine.runFor budget).1 =
          if size - start ≤ budget then .completed else .stepLimit) ∧
    (2 ^ 32 ≤ size → machine.run = none ∧ ∀ budget, (machine.runFor budget).1 = .stepLimit) := by
  intro start size program final
  constructor
  · intro within small straight
    have passes : machine.Passes program := passes_straight small rfl straight
    have count : program.length = size - start := by
      rw [List.length_drop, Memory.length_words]
    have ends : start + program.length = size := by
      rw [count, Nat.add_sub_cancel' within]
    have ran := passes.runFor ends
    refine ⟨passes, ?_, ?_, ?_⟩
    · apply run_eq_some_iff_runFor.mpr
      exact ⟨program.length, (ran _).trans (if_pos (Nat.le_refl _))⟩
    · exact (passes.pc _ (Nat.le_refl _)).trans ends
    · intro budget
      rw [ran, count]
      split <;> rfl
  · intro large
    constructor
    · rw [Option.eq_none_iff_forall_ne_some]
      intro final ended
      obtain ⟨count, steps, outside⟩ := run_eq_some_iff.mp ended
      rw [steps.inside_of_large large] at outside
      cases outside
    · intro budget
      rcases runFor_cases machine budget with
        ⟨_, _, _, ran⟩ | ⟨_, _, _, steps, outside, _⟩
      · rw [ran]
      · rw [steps.inside_of_large large] at outside
        cases outside

theorem run_straight_line_behind_jump :
    let machine : Machine := ⟨{ Hart.new ⟨true, false⟩ with pc := 1 },
      ⟨#[0x0000006f, 0x00100093, 0x00000000, 0x001080b3]⟩, {}⟩
    let full : Machine := { machine with memory := .zero (2 ^ 32) }
    (∃ final, machine.run = some final ∧ final.hart.pc.toNat = 4 ∧
      final.hart.counters = ⟨3, 2, 1⟩) ∧ full.run = none := by
  intro machine full
  constructor
  · have straight : ∀ word ∈ [0x00100093, 0x00000000, 0x001080b3], ¬ Word.jumps word := by
      rw [List.forall_mem_cons, List.forall_mem_cons, List.forall_mem_singleton]
      decide
    obtain ⟨passes, ran, reached, -⟩ :=
      (run_straight_line machine).1 (by decide) (by decide) straight
    exact ⟨_, ran, reached, passes.counters.trans (by decide)⟩
  · have size : full.memory.size = 2 ^ 32 := Memory.size_zero (2 ^ 32)
    obtain ⟨unended, -⟩ := (run_straight_line full).2 (Nat.le_of_eq size.symm)
    exact unended

end Machine

end WordHart
