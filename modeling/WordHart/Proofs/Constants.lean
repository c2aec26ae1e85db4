import Mathlib
import WordHart.Proofs.Cycle
import WordHart.Proofs.InstructionWords

/-!
No word has room for a whole constant. The second word of two adds its part as a
signed number, which takes one off the upper bits wherever it is negative. The
upper bits are therefore those of the constant rounded to the nearest multiple of
`2 ^ 12`. Rounding wraps at the end of the range, and so does the addition.
-/

namespace WordHart

namespace Instruction

/-- The upper twenty bits of a constant, rounded. -/
def upperPart (constant : Word) : BitVec 20 := ((constant + 0x800) >>> 12).setWidth 20

/-- The lower twelve bits of a constant, as the signed number that they denote. -/
def lowerPart (constant : Word) : Word := (constant.setWidth 12).signExtend 32

theorem toNat_upperPart (constant : Word) :
    (upperPart constant).toNat = (constant.toNat + 2048) % 2 ^ 32 / 4096 := by
  rw [upperPart, BitVec.toNat_setWidth, BitVec.toNat_ushiftRight, BitVec.toNat_add,
    Nat.shiftRight_eq_div_pow]
  have half : (0x800 : Word).toNat = 2048 := rfl
  omega

theorem toNat_lowerPart (constant : Word) :
    (lowerPart constant).toNat =
      constant.toNat % 4096 + if 2048 ≤ constant.toNat % 4096 then 2 ^ 32 - 4096 else 0 := by
  have narrow : constant.toNat % 4096 % 2 ^ 32 = constant.toNat % 4096 := by omega
  simp only [lowerPart, BitVec.toNat_signExtend, BitVec.msb_eq_decide, BitVec.toNat_setWidth,
    decide_eq_true_eq, Nat.reducePow, Nat.reduceSub, Nat.add_one_sub_one] at narrow ⊢
  rw [narrow]

theorem upperPart_add_lowerPart (constant : Word) :
    (upperPart constant).setWidth 32 * 4096 + lowerPart constant = constant := by
  have unit : (4096 : Word).toNat = 4096 := rfl
  have bound := constant.isLt
  apply BitVec.eq_of_toNat_eq
  rw [BitVec.toNat_add, BitVec.toNat_mul, BitVec.toNat_setWidth, toNat_upperPart, toNat_lowerPart,
    unit]
  -- Where the lower part is negative, the upper one has been rounded up by the same unit.
  split <;> omega

/-- The word that puts the upper part of a constant into a register. -/
def loadUpper (register : Register) (constant : Word) : Word :=
  upperWord (upperPart constant) register 0b0110111

/-- The word that adds the lower part of a constant to a register. -/
def addLower (register : Register) (constant : Word) : Word :=
  immediateWord ((lowerPart constant).setWidth 12) register 0 register 0b0010011

end Instruction

namespace Hart

open Instruction

variable {hart : Hart} {memory : Memory} {word value : Word} {register : Register}

theorem effect_loadUpper (hart : Hart) (register : Register) (constant : Word) :
    hart.effect (.decode (loadUpper register constant)) =
      .ok (hart.write register ((upperPart constant).setWidth 32 * 4096)) := by
  have upper : Opcode.lui.format = .upper := rfl
  obtain ⟨opcode, rd, imm⟩ := decode_upperWord upper (upperPart constant) register
  have decoded : loadUpper register constant =
      upperWord (upperPart constant) register (Opcode.lui.bits.setWidth 7) := rfl
  simp only [effect, decoded, opcode, rd, imm]

theorem effect_addLower (hart : Hart) (register : Register) (constant : Word) :
    hart.effect (.decode (addLower register constant)) =
      .ok (hart.write register (hart.read register + lowerPart constant)) := by
  have immediate : Opcode.opImm.format = .immediate := rfl
  obtain ⟨opcode, rd, funct3, rs1, imm⟩ :=
    decode_immediateWord immediate ((lowerPart constant).setWidth 12) register 0 register
  have decoded : addLower register constant =
      immediateWord ((lowerPart constant).setWidth 12) register 0 register
        (Opcode.opImm.bits.setWidth 7) := rfl
  rw [← decoded] at opcode rd funct3 rs1 imm
  have adds : (decode (addLower register constant)).funct3 = .addSub := by
    rw [← Funct3.ofBits_bits (decode (addLower register constant)).funct3, funct3]
    rfl
  have whole : ((lowerPart constant).setWidth 12).signExtend 32 = lowerPart constant :=
    congrArg (BitVec.signExtend 32) (setWidth_signExtend (by decide) (constant.setWidth 12))
  simp only [effect, opcode, adds, rd, rs1, imm, whole]

/-- A word whose effect is to write a register does nothing else, and the hart goes on behind it. -/
theorem step_of_write (loaded : memory.load hart.pc = .ok word)
    (written : hart.advance.effect (.decode word) = .ok (hart.advance.write register value))
    (free : ¬ hart.wired register = true) :
    ∃ next, hart.step memory = (.ok (.executed (.decode word)), next) ∧
      next.pc = hart.pc + 1 ∧ ¬ next.wired register = true ∧ next.read register = value ∧
      ∀ other, next.registers.read other =
        if other = register then value else hart.registers.read other := by
  have advanced : ¬ hart.advance.wired register = true := free
  have executed : hart.advance.execute (.decode word) =
      (.executed (.decode word), hart.advance.write register value) := by
    simp only [execute, written]
  rw [write_of_not_wired advanced, advance] at executed
  rw [step_of_load loaded, executed]
  refine ⟨_, rfl, rfl, free, (if_neg free).trans ?_, fun other => ?_⟩
  · rw [RegisterFile.read_write, if_pos rfl]
  · rw [RegisterFile.read_write]
    simp only [@eq_comm _ register]

/-- The word for the upper part and the word for the lower part leave the whole constant in a
register, for every constant and from everywhere in memory. -/
theorem constant_loaded_by_two_words (hart : Hart) (memory : Memory) (register : Register)
    (constant : Word) (free : ¬ (hart.mode.hardwireX0 = true ∧ register = .x0))
    (small : hart.pc.toNat + 1 < 2 ^ 32)
    (first : memory.words[hart.pc.toNat]? = some (loadUpper register constant))
    (second : memory.words[hart.pc.toNat + 1]? = some (addLower register constant)) :
    ∃ middle final,
      hart.step memory = (.ok (.executed (.decode (loadUpper register constant))), middle) ∧
      middle.step memory = (.ok (.executed (.decode (addLower register constant))), final) ∧
      final.read register = constant ∧ final.pc = hart.pc + 2 ∧
      ∀ other, final.registers.read other =
        if other = register then constant else hart.registers.read other := by
  obtain ⟨middle, upper, pc, unwired, held, kept⟩ := step_of_write (Memory.load_of_words first)
    (effect_loadUpper hart.advance register constant) (mt wired_iff.mp free)
  have behind : memory.words[middle.pc.toNat]? = some (addLower register constant) := by
    have next : middle.pc.toNat = hart.pc.toNat + 1 := by
      rw [pc]
      bv_omega
    rw [next, second]
  have added : middle.advance.effect (.decode (addLower register constant)) =
      .ok (middle.advance.write register constant) := by
    have whole : middle.advance.read register + lowerPart constant = constant :=
      (congrArg (· + lowerPart constant) held).trans (upperPart_add_lowerPart constant)
    rw [effect_addLower, whole]
  obtain ⟨final, lower, finalPc, -, loaded, finalKept⟩ :=
    step_of_write (Memory.load_of_words behind) added unwired
  refine ⟨middle, final, upper, lower, loaded, ?_, fun other => ?_⟩
  · rw [finalPc, pc]
    bv_omega
  · rw [finalKept, kept]
    split <;> rfl

theorem constant_loaded_by_two_words_wrapped_rounding :
    let hart : Hart := { Hart.new ⟨true, false⟩ with pc := 1 }
    let memory : Memory := ⟨#[0x00000000, 0x000002b7, 0xfff28293]⟩
    memory.words[1]? = some (loadUpper (.ofNat 5) 0xffffffff) ∧
      memory.words[2]? = some (addLower (.ofNat 5) 0xffffffff) ∧
      ∃ middle final,
        hart.step memory = (.ok (.executed (.decode 0x000002b7)), middle) ∧
        middle.step memory = (.ok (.executed (.decode 0xfff28293)), final) ∧
        final.read (.ofNat 5) = 0xffffffff ∧ final.pc = 3 := by
  intro hart memory
  have first : memory.words[hart.pc.toNat]? = some (loadUpper (.ofNat 5) 0xffffffff) := by decide
  have second : memory.words[hart.pc.toNat + 1]? = some (addLower (.ofNat 5) 0xffffffff) := by
    decide
  obtain ⟨middle, final, upper, lower, held, pc, -⟩ :=
    constant_loaded_by_two_words hart memory (.ofNat 5) 0xffffffff (by decide) (by decide) first
      second
  exact ⟨first, second, middle, final, upper, lower, held, pc⟩

end Hart

end WordHart
