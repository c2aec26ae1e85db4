import Mathlib
import WordHart.Proofs.StraightLine

namespace WordHart

/-- A word that leads no run back: it is no indirect jump, and if it jumps, not by a negative
offset. -/
def Word.Forward (word : Word) : Prop :=
  (Instruction.decode word).opcode ≠ .jalr ∧
    ((Instruction.decode word).opcode = .jal → 0 ≤ (Instruction.decode word).imm.toInt)

instance : DecidablePred Word.Forward := fun _ => inferInstanceAs (Decidable (_ ∧ (_ → _)))

theorem Word.imm_lt_of_jal {word : Word} (jumps : (Instruction.decode word).opcode = .jal) :
    (Instruction.decode word).imm.toInt < 2 ^ 20 := by
  have offset : (Instruction.decode word).imm = (Format.jumpOffset word).signExtend 32 := by
    change (Instruction.decode word).opcode.format.immediateOf word = _
    rw [jumps]
    rfl
  have bound := (Format.jumpOffset word).two_mul_toInt_lt
  rw [offset, BitVec.toInt_signExtend_of_le (by decide)]
  omega

namespace Hart

/-- A forward word goes on where it links to or further, but not by more than the longest jump. -/
theorem target_of_forward {hart : Hart} {word : Word} {row : Row} (forward : word.Forward)
    (found : hart.row? (.decode word) = some row) :
    hart.pc.toNat ≤ row.target ∧ row.target < hart.pc.toNat + 2 ^ 20 := by
  obtain ⟨mnemonic, named, rfl⟩ := Option.map_eq_some_iff.mp found
  have opcode := Mnemonic.opcode_of_ofInstruction? named
  by_cases jumps : mnemonic = .jal
  · subst jumps
    have ahead := forward.2 opcode
    have short := Word.imm_lt_of_jal opcode
    simp only [row]
    omega
  · have direct : mnemonic ≠ .jalr := by
      rintro rfl
      exact forward.1 opcode
    rw [target_row hart _ _ _ _ _ ⟨jumps, direct⟩]
    omega

end Hart

namespace Machine

variable {machine next final : Machine} {outcome : Outcome} {count : Nat}

/-- Memory holds no word that leads back, and from no word in it the longest jump wraps around. -/
structure OnlyForward (machine : Machine) : Prop where
  small : machine.memory.size ≤ 2 ^ 32 - 2 ^ 20
  words : ∀ word ∈ machine.memory.words, word.Forward

theorem OnlyForward.step (only : machine.OnlyForward)
    (stepped : machine.step = (.ok outcome, next)) : next.OnlyForward := by
  have kept := memory_of_step stepped
  exact ⟨kept ▸ only.small, kept ▸ only.words⟩

theorem OnlyForward.pc_lt (only : machine.OnlyForward)
    (stepped : machine.step = (.ok outcome, next)) :
    machine.hart.pc.toNat < next.hart.pc.toNat := by
  have inside := inside_of_step stepped
  have small := only.small
  have bound := inside_iff_lt.mp inside
  obtain ⟨instruction, fetched⟩ := exists_next inside
  obtain ⟨word, present, rfl⟩ := Option.map_eq_some_iff.mp fetched
  have moved : next.hart.pc = (machine.hart.advance.execute (.decode word)).2.pc := by
    rw [step_of_next fetched] at stepped
    cases stepped
    rfl
  rw [Memory.length_words] at bound
  have link : machine.hart.advance.pc.toNat = machine.hart.pc.toNat + 1 := by
    change (machine.hart.pc + 1).toNat = _
    bv_omega
  rw [moved, Hart.pc_execute]
  cases found : machine.hart.advance.row? (.decode word) with
  | none =>
      rw [Option.map_none, Option.getD_none, link]
      exact Nat.lt_succ_self _
  | some row =>
      have forward := only.words word (List.mem_of_getElem? present)
      obtain ⟨least, most⟩ := Hart.target_of_forward forward found
      rw [Option.map_some, Option.getD_some, BitVec.toNat_ofInt]
      omega

theorem OnlyForward.pc_add_le (only : machine.OnlyForward) (steps : Steps count machine final) :
    machine.hart.pc.toNat + count ≤ final.hart.pc.toNat := by
  induction steps with
  | refl => exact Nat.le_refl _
  | cons stepped _ inductionHypothesis =>
      have further := only.pc_lt stepped
      have later := inductionHypothesis (only.step stepped)
      omega

/-- The indices from which so many cycles fetch. -/
def fetches (machine : Machine) : Nat → List Nat
  | 0 => []
  | count + 1 => machine.hart.pc.toNat :: machine.step.2.fetches count

theorem OnlyForward.le_of_mem_fetches (only : machine.OnlyForward)
    (steps : Steps count machine final) :
    ∀ index ∈ machine.fetches count, machine.hart.pc.toNat ≤ index := by
  induction steps with
  | refl => exact nofun
  | cons stepped _ inductionHypothesis =>
      have further := only.pc_lt stepped
      rw [fetches, stepped, List.forall_mem_cons]
      refine ⟨Nat.le_refl _, fun index later => ?_⟩
      exact (Nat.le_of_lt further).trans (inductionHypothesis (only.step stepped) index later)

theorem OnlyForward.pairwise_fetches (only : machine.OnlyForward)
    (steps : Steps count machine final) : (machine.fetches count).Pairwise (· < ·) := by
  induction steps with
  | refl => exact .nil
  | cons stepped rest inductionHypothesis =>
      have further := only.pc_lt stepped
      have onward := only.step stepped
      rw [fetches, stepped]
      refine .cons (fun index later => ?_) (inductionHypothesis onward)
      exact further.trans_le (onward.le_of_mem_fetches rest index later)

/-- Where words only lead forward, a run ends after at most one cycle for each word from the program
counter on, and it fetches no word twice. -/
theorem run_ends_of_onlyForward (machine : Machine)
    (small : machine.memory.size ≤ 2 ^ 32 - 2 ^ 20)
    (forward : ∀ word ∈ machine.memory.words, word.Forward) :
    ∃ count final, machine.run = some final ∧ Steps count machine final ∧ final.inside = false ∧
      count ≤ machine.memory.size - machine.hart.pc.toNat ∧
      (machine.fetches count).Pairwise (· < ·) := by
  have only : machine.OnlyForward := ⟨small, forward⟩
  rcases runFor_cases machine (machine.memory.size - machine.hart.pc.toNat) with
    ⟨final, steps, inside, -⟩ | ⟨count, final, within, steps, outside, -⟩
  · have far := only.pc_add_le steps
    have bound := inside_iff_lt.mp inside
    rw [Memory.length_words, steps.memory] at bound
    omega
  · have ended : machine.run = some final := run_eq_some_iff.mpr ⟨count, steps, outside⟩
    exact ⟨count, final, ended, steps, outside, within, only.pairwise_fetches steps⟩

theorem run_ends_of_onlyForward_skipped_word :
    let machine : Machine :=
      ⟨.new {}, ⟨#[0x0020006f, 0xffffffff, 0x00000000, 0x00100093]⟩, {}⟩
    ∃ count final, machine.run = some final ∧ count ≤ 4 ∧ final.inside = false := by
  intro machine
  have forward : ∀ word ∈ [0x0020006f, 0xffffffff, 0x00000000, 0x00100093], Word.Forward word := by
    rw [List.forall_mem_cons, List.forall_mem_cons, List.forall_mem_cons,
      List.forall_mem_singleton]
    decide
  obtain ⟨count, final, ended, -, outside, within, -⟩ :=
    run_ends_of_onlyForward machine (by decide) forward
  exact ⟨count, final, ended, within, outside⟩

end Machine

end WordHart
