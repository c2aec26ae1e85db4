import Mathlib
import WordHart.Proofs.InstructionWords
import WordHart.Proofs.Numerals

namespace WordHart

/-- What stands before the first separator is determined by the whole. -/
theorem append_cons_inj {α : Type} {separator : α} {left right leftRest rightRest : List α}
    (leftFree : separator ∉ left) (rightFree : separator ∉ right)
    (same : left ++ separator :: leftRest = right ++ separator :: rightRest) :
    left = right ∧ leftRest = rightRest := by
  induction left generalizing right with
  | nil =>
      cases right with
      | nil => exact ⟨rfl, (List.cons.inj same).2⟩
      | cons c right =>
          obtain ⟨rfl, -⟩ := List.cons.inj same
          exact absurd List.mem_cons_self rightFree
  | cons c left inductionHypothesis =>
      cases right with
      | nil =>
          obtain ⟨rfl, -⟩ := List.cons.inj same
          exact absurd List.mem_cons_self leftFree
      | cons d right =>
          obtain ⟨rfl, behind⟩ := List.cons.inj same
          obtain ⟨rfl, rests⟩ := inductionHypothesis (List.not_mem_of_not_mem_cons leftFree)
            (List.not_mem_of_not_mem_cons rightFree) behind
          exact ⟨rfl, rests⟩

/-- Pieces without commas are determined by the list that they make up. -/
theorem intercalate_inj {left right : List (List Char)} (leftFree : ∀ piece ∈ left, ',' ∉ piece)
    (rightFree : ∀ piece ∈ right, ',' ∉ piece) (leftSome : left ≠ []) (rightSome : right ≠ [])
    (same : [',', ' '].intercalate left = [',', ' '].intercalate right) : left = right := by
  induction left generalizing right with
  | nil => contradiction
  | cons first left inductionHypothesis =>
      cases right with
      | nil => contradiction
      | cons first' right =>
          -- Where only one of the lists goes on, its separator would stand inside a piece.
          have free := leftFree first List.mem_cons_self
          have free' := rightFree first' List.mem_cons_self
          cases left with
          | nil =>
              cases right with
              | nil => simpa using same
              | cons second' right =>
                  rw [List.intercalate_singleton, List.intercalate_cons_cons] at same
                  rw [same] at free
                  simp at free
          | cons second left =>
              cases right with
              | nil =>
                  rw [List.intercalate_singleton, List.intercalate_cons_cons] at same
                  rw [← same] at free'
                  simp at free'
              | cons second' right =>
                  rw [List.intercalate_cons_cons, List.intercalate_cons_cons, List.append_assoc,
                    List.append_assoc] at same
                  obtain ⟨rfl, rest⟩ := append_cons_inj free free' same
                  have later := inductionHypothesis
                    (fun piece member => leftFree piece (List.mem_cons_of_mem _ member))
                    (fun piece member => rightFree piece (List.mem_cons_of_mem _ member))
                    (List.cons_ne_nil _ _) (List.cons_ne_nil _ _) (List.cons.inj rest).2
                  rw [later]

theorem Word.field_lt (word : Word) (low width : Nat) : word.field low width < 2 ^ width :=
  Nat.mod_lt _ (Nat.two_pow_pos width)

/-- Two fields side by side are one field. -/
theorem Word.field_add (word : Word) (low first second : Nat) :
    word.field low (first + second) =
      word.field low first + 2 ^ first * word.field (low + first) second := by
  rw [field, Nat.pow_add, Nat.mod_mul, Nat.div_div_eq_div_mul, ← Nat.pow_add]
  rfl

theorem Counters.record_eq_of_reason?_eq (counters : Counters) {left right : Outcome}
    (same : left.reason? = right.reason?) : counters.record left = counters.record right := by
  cases left <;> cases right
  case executed.executed => rfl
  case ignored.ignored => rfl
  all_goals contradiction

theorem Hart.execute_eq_of_effect_eq {hart : Hart} {left right : Instruction}
    (same : hart.effect left = hart.effect right) :
    (hart.execute left).2 = (hart.execute right).2 ∧
      (hart.execute left).1.reason? = (hart.execute right).1.reason? := by
  unfold execute
  rw [same]
  cases hart.effect right with
  | ok next => exact ⟨rfl, rfl⟩
  | error reason => exact ⟨rfl, rfl⟩

namespace Mnemonic

/-- What an operation requires of the selectors. -/
theorem selectors_of_ofInstruction? {instruction : Instruction} {mnemonic : Mnemonic}
    (found : ofInstruction? instruction = some mnemonic) :
    (mnemonic = addi → instruction.funct3 = .addSub) ∧
      (mnemonic = add →
        instruction.funct3 = .addSub ∧ instruction.funct7 = Instruction.addSelector) ∧
      (mnemonic = sub →
        instruction.funct3 = .addSub ∧ instruction.funct7 = Instruction.subSelector) := by
  unfold ofInstruction? at found
  split at found
  case h_5 opcode funct3 =>
    cases found
    exact ⟨fun _ => funct3, nofun, nofun⟩
  case h_6 opcode funct3 =>
    split at found
    case isTrue adds =>
      cases found
      exact ⟨nofun, fun _ => ⟨funct3, adds⟩, nofun⟩
    case isFalse =>
      split at found
      case isTrue subtracts =>
        cases found
        exact ⟨nofun, nofun, fun _ => ⟨funct3, subtracts⟩⟩
      case isFalse => contradiction
  case h_7 => contradiction
  all_goals
    cases found
    exact ⟨nofun, nofun, nofun⟩

/-- Records of one operation agree in the selectors that it has. -/
theorem selectors_eq {left right : Instruction} {mnemonic : Mnemonic}
    (leftFound : ofInstruction? left = some mnemonic)
    (rightFound : ofInstruction? right = some mnemonic) :
    (mnemonic.opcode = .opImm ∨ mnemonic.opcode = .op → left.funct3 = right.funct3) ∧
      (mnemonic.opcode = .op → left.funct7 = right.funct7) := by
  obtain ⟨leftAddi, leftAdd, leftSub⟩ := selectors_of_ofInstruction? leftFound
  obtain ⟨rightAddi, rightAdd, rightSub⟩ := selectors_of_ofInstruction? rightFound
  cases mnemonic with
  | addi => exact ⟨fun _ => (leftAddi rfl).trans (rightAddi rfl).symm, nofun⟩
  | add =>
      exact ⟨fun _ => (leftAdd rfl).1.trans (rightAdd rfl).1.symm,
        fun _ => (leftAdd rfl).2.trans (rightAdd rfl).2.symm⟩
  | sub =>
      exact ⟨fun _ => (leftSub rfl).1.trans (rightSub rfl).1.symm,
        fun _ => (leftSub rfl).2.trans (rightSub rfl).2.symm⟩
  | _ => exact ⟨by rintro (major | major) <;> contradiction, nofun⟩

end Mnemonic

namespace Instruction

variable {instruction : Instruction}

/-- The name of an operation, and the word that stands for all others. -/
def heading : Option Mnemonic → String
  | some .lui => "lui"
  | some .auipc => "auipc"
  | some .jal => "jal"
  | some .jalr => "jalr"
  | some .addi => "addi"
  | some .add => "add"
  | some .sub => "sub"
  | none => "unknown"

def operands (instruction : Instruction) : Option Mnemonic → List String
  | some .lui | some .auipc => [instruction.rd.text, instruction.upperText]
  | some .jal => [instruction.rd.text, instruction.immText]
  | some .jalr => [instruction.rd.text, instruction.immText ++ "(" ++ instruction.rs1.text ++ ")"]
  | some .addi => [instruction.rd.text, instruction.rs1.text, instruction.immText]
  | some .add | some .sub => [instruction.rd.text, instruction.rs1.text, instruction.rs2.text]
  | none => [Numeral.hex 8 instruction.raw.toNat]

def line (instruction : Instruction) (found : Option Mnemonic) : String :=
  heading found ++ " " ++ ", ".intercalate (instruction.operands found)

theorem text_of_mnemonic {mnemonic : Mnemonic}
    (found : Mnemonic.ofInstruction? instruction = some mnemonic) :
    instruction.text = instruction.line (some mnemonic) := by
  have opcode := Mnemonic.opcode_of_ofInstruction? found
  obtain ⟨addi, add, sub⟩ := Mnemonic.selectors_of_ofInstruction? found
  have different : subSelector ≠ addSelector := by decide
  rw [← String.toList_inj]
  cases mnemonic with
  | addi => simp [text, opcode, Mnemonic.opcode, addi rfl, line, heading, operands]
  | add => simp [text, opcode, Mnemonic.opcode, add rfl, line, heading, operands]
  | sub => simp [text, opcode, Mnemonic.opcode, sub rfl, different, line, heading, operands]
  | _ => simp [text, opcode, Mnemonic.opcode, line, heading, operands]

theorem text_of_no_mnemonic (missing : Mnemonic.ofInstruction? instruction = none) :
    instruction.text = instruction.line none := by
  have unknown : instruction.unknownText = instruction.line none := by
    rw [← String.toList_inj]
    simp [unknownText, line, heading, operands]
  rw [← unknown]
  cases opcode : instruction.opcode with
  | opImm =>
      have other : instruction.funct3 ≠ .addSub := by
        intro funct3
        simp [Mnemonic.ofInstruction?, opcode, funct3] at missing
      simp only [text, opcode, other, if_false]
  | op =>
      by_cases funct3 : instruction.funct3 = .addSub
      · simp only [Mnemonic.ofInstruction?, opcode, funct3] at missing
        split at missing
        case isTrue => contradiction
        case isFalse notAdd =>
          split at missing
          case isTrue => contradiction
          case isFalse notSub =>
            simp only [text, opcode]
            exact (if_neg fun both => notAdd both.2).trans (if_neg fun both => notSub both.2)
      · simp only [text, opcode, funct3, false_and, if_false]
  | unsupported bits => simp only [text, opcode]
  | _ => simp [Mnemonic.ofInstruction?, opcode] at missing

theorem text_eq_line (instruction : Instruction) :
    instruction.text = instruction.line (Mnemonic.ofInstruction? instruction) := by
  cases found : Mnemonic.ofInstruction? instruction with
  | some mnemonic => exact text_of_mnemonic found
  | none => exact text_of_no_mnemonic found

theorem heading_inj {left right : Option Mnemonic} (same : heading left = heading right) :
    left = right := by
  let all : List (Option Mnemonic) :=
    [some .lui, some .auipc, some .jal, some .jalr, some .addi, some .add, some .sub, none]
  have every (found : Option Mnemonic) : found ∈ all := by
    cases found with
    | none => decide
    | some mnemonic => cases mnemonic <;> decide
  have distinct : (all.map heading).Nodup := by decide
  exact List.inj_on_of_nodup_map distinct (every left) (every right) same

theorem blank_not_mem_heading (found : Option Mnemonic) : ' ' ∉ (heading found).toList := by
  cases found with
  | none => decide
  | some mnemonic => cases mnemonic <;> decide

theorem comma_not_mem_operands {found : Option Mnemonic} {operand : String}
    (member : operand ∈ instruction.operands found) : ',' ∉ operand.toList := by
  have register (register : Register) : ',' ∉ register.text.toList := by
    intro comma
    exact absurd (Register.mem_toList_text comma) (by decide)
  have hex (width n : Nat) : ',' ∉ (Numeral.hex width n).toList := by
    intro comma
    exact absurd (Numeral.mem_toList_hex comma) (by decide)
  have signed (n : Int) : ',' ∉ (Numeral.signed n).toList := by
    intro comma
    exact absurd (Numeral.mem_toList_signed comma) (by decide)
  cases found with
  | none => simp_all [operands]
  | some mnemonic =>
      cases mnemonic <;>
        simp only [operands, List.mem_cons, List.not_mem_nil, or_false] at member
      all_goals rcases member with rfl | rfl | rfl
      all_goals simp [upperText, immText, register, hex, signed]

theorem operands_ne_nil (instruction : Instruction) (found : Option Mnemonic) :
    instruction.operands found ≠ [] := by
  cases found with
  | none => exact List.cons_ne_nil _ _
  | some mnemonic => cases mnemonic <;> exact List.cons_ne_nil _ _

theorem toList_line (instruction : Instruction) (found : Option Mnemonic) :
    (instruction.line found).toList = (heading found).toList ++
      ' ' :: [',', ' '].intercalate ((instruction.operands found).map String.toList) := by
  have blank : " ".toList = [' '] := rfl
  have comma : ", ".toList = [',', ' '] := rfl
  rw [line, String.toList_append, String.toList_append, String.toList_intercalate, blank, comma,
    List.append_assoc]
  rfl

theorem parts_of_line {left right : Instruction} {found found' : Option Mnemonic}
    (same : left.line found = right.line found') :
    found = found' ∧ left.operands found = right.operands found' := by
  have free (instruction : Instruction) (found : Option Mnemonic) :
      ∀ piece ∈ (instruction.operands found).map String.toList, ',' ∉ piece := by
    intro piece member
    obtain ⟨operand, among, rfl⟩ := List.mem_map.mp member
    exact comma_not_mem_operands among
  have some (instruction : Instruction) (found : Option Mnemonic) :
      (instruction.operands found).map String.toList ≠ [] :=
    fun empty => operands_ne_nil instruction found (List.map_eq_nil_iff.mp empty)
  have chars := congrArg String.toList same
  rw [toList_line, toList_line] at chars
  obtain ⟨headings, rests⟩ :=
    append_cons_inj (blank_not_mem_heading found) (blank_not_mem_heading found') chars
  have pieces := intercalate_inj (free left found) (free right found') (some left found)
    (some right found') rests
  exact ⟨heading_inj (String.toList_inj.mp headings),
    List.map_injective_iff.mpr (fun _ _ => String.toList_inj.mp) pieces⟩

variable {left right : Word}

section Operands

variable {left right : Instruction} {mnemonic : Mnemonic}

theorem imm_eq_of_immText (same : left.immText = right.immText) : left.imm = right.imm :=
  BitVec.eq_of_toInt_eq (Numeral.signed_inj same)

theorem upper_eq_of_upperText (same : left.upperText = right.upperText) :
    left.imm >>> 12 = right.imm >>> 12 := BitVec.eq_of_toNat_eq (Numeral.hex_inj same)

/-- The operands of all operations but the indirect jump hold every field of their format. -/
theorem encode_eq_of_operands (leftFound : Mnemonic.ofInstruction? left = some mnemonic)
    (rightFound : Mnemonic.ofInstruction? right = some mnemonic) (direct : mnemonic ≠ .jalr)
    (same : left.operands (some mnemonic) = right.operands (some mnemonic)) :
    left.encode = right.encode := by
  have leftOpcode := Mnemonic.opcode_of_ofInstruction? leftFound
  have rightOpcode := Mnemonic.opcode_of_ofInstruction? rightFound
  obtain ⟨funct3, funct7⟩ := Mnemonic.selectors_eq leftFound rightFound
  cases mnemonic with
  | lui | auipc =>
      simp only [operands, List.cons.injEq, and_true] at same
      have rd := Register.text_inj same.1
      have upper := upper_eq_of_upperText same.2
      simp only [encode, leftOpcode, rightOpcode, Mnemonic.opcode, Opcode.format, rd, upper]
  | jal =>
      simp only [operands, List.cons.injEq, and_true] at same
      have rd := Register.text_inj same.1
      have imm := imm_eq_of_immText same.2
      simp only [encode, leftOpcode, rightOpcode, Mnemonic.opcode, Opcode.format, rd, imm]
  | jalr => contradiction
  | addi =>
      simp only [operands, List.cons.injEq, and_true] at same
      have rd := Register.text_inj same.1
      have rs1 := Register.text_inj same.2.1
      have imm := imm_eq_of_immText same.2.2
      simp only [encode, leftOpcode, rightOpcode, Mnemonic.opcode, Opcode.format, rd, rs1, imm,
        funct3 (.inl rfl)]
  | add | sub =>
      simp only [operands, List.cons.injEq, and_true] at same
      have rd := Register.text_inj same.1
      have rs1 := Register.text_inj same.2.1
      have rs2 := Register.text_inj same.2.2
      simp only [encode, leftOpcode, rightOpcode, Mnemonic.opcode, Opcode.format, rd, rs1, rs2,
        funct3 (.inr rfl), funct7 rfl]

theorem operands_jalr_eq_iff :
    left.operands (some .jalr) = right.operands (some .jalr) ↔
      left.rd = right.rd ∧ left.imm = right.imm ∧ left.rs1 = right.rs1 := by
  constructor
  · intro same
    simp only [operands, List.cons.injEq, and_true] at same
    obtain ⟨rd, target⟩ := same
    have free (instruction : Instruction) : '(' ∉ instruction.immText.toList :=
      fun parenthesis => absurd (Numeral.mem_toList_signed parenthesis) (by decide)
    have chars := congrArg String.toList target
    simp only [String.toList_append, List.append_assoc] at chars
    obtain ⟨imm, base⟩ := append_cons_inj (free left) (free right) chars
    have tails : left.rs1.text.toList ++ ")".toList = right.rs1.text.toList ++ ")".toList := base
    have rs1 := List.append_cancel_right tails
    exact ⟨Register.text_inj rd, imm_eq_of_immText (String.toList_inj.mp imm),
      Register.text_inj (String.toList_inj.mp rs1)⟩
  · intro ⟨rd, imm, rs1⟩
    simp only [operands, immText, rd, imm, rs1]

end Operands

/-- Two words that differ at most in the bits that select among indirect jumps. -/
def SameJump (left right : Word) : Prop :=
  left.extractLsb' 0 12 = right.extractLsb' 0 12 ∧ left.extractLsb' 15 17 = right.extractLsb' 15 17

instance : Decidable (SameJump left right) :=
  inferInstanceAs (Decidable (left.extractLsb' 0 12 = _ ∧ left.extractLsb' 15 17 = _))

theorem sameJump_iff : SameJump left right ↔
    left.extractLsb' 0 7 = right.extractLsb' 0 7 ∧ left.extractLsb' 7 5 = right.extractLsb' 7 5 ∧
      left.extractLsb' 15 5 = right.extractLsb' 15 5 ∧
      left.extractLsb' 20 12 = right.extractLsb' 20 12 := by
  have low (word : Word) : word.field 0 12 = word.field 0 7 + 2 ^ 7 * word.field 7 5 :=
    Word.field_add word 0 7 5
  have high (word : Word) : word.field 15 17 = word.field 15 5 + 2 ^ 5 * word.field 20 12 :=
    Word.field_add word 15 5 12
  have leftOpcode := left.field_lt 0 7
  have leftRs1 := left.field_lt 15 5
  have rightOpcode := right.field_lt 0 7
  have rightRs1 := right.field_lt 15 5
  simp only [SameJump, Word.extractLsb'_eq_iff, Word.toNat_extractLsb', low, high]
  omega

theorem parts_of_text (same : (decode left).text = (decode right).text) :
    Mnemonic.ofInstruction? (decode left) = Mnemonic.ofInstruction? (decode right) ∧
      (decode left).operands (Mnemonic.ofInstruction? (decode left)) =
        (decode right).operands (Mnemonic.ofInstruction? (decode left)) := by
  rw [text_eq_line, text_eq_line] at same
  obtain ⟨found, operands⟩ := parts_of_line same
  rw [← found] at operands
  exact ⟨found, operands⟩

theorem opcode_eq_jalr_iff {word : Word} :
    (decode word).opcode = .jalr ↔ word.extractLsb' 0 7 = 0b1100111 := by
  constructor
  · intro jalr
    rw [← setWidth_bits_ofBits (word.extractLsb' 0 7), show Opcode.ofBits _ = _ from jalr]
    rfl
  · intro bits
    exact congrArg Opcode.ofBits bits

theorem imm_decode_jalr {word : Word} (jumps : (decode word).opcode = .jalr) :
    (decode word).imm = (word.extractLsb' 20 12).signExtend 32 := by
  rw [imm_decode, jumps]
  rfl

theorem ofInstruction?_jalr (jumps : instruction.opcode = .jalr) :
    Mnemonic.ofInstruction? instruction = some .jalr := by
  simp only [Mnemonic.ofInstruction?, jumps]

theorem operands_eq_iff_sameJump (leftJumps : (decode left).opcode = .jalr)
    (rightJumps : (decode right).opcode = .jalr) :
    (decode left).operands (some .jalr) = (decode right).operands (some .jalr) ↔
      SameJump left right := by
  have opcode : left.extractLsb' 0 7 = right.extractLsb' 0 7 :=
    (opcode_eq_jalr_iff.mp leftJumps).trans (opcode_eq_jalr_iff.mp rightJumps).symm
  rw [operands_jalr_eq_iff, sameJump_iff, imm_decode_jalr leftJumps, imm_decode_jalr rightJumps]
  constructor
  · intro ⟨rd, imm, rs1⟩
    have narrow := congrArg (BitVec.setWidth 12) imm
    rw [setWidth_signExtend (by decide), setWidth_signExtend (by decide)] at narrow
    exact ⟨opcode, congrArg Register.index rd, congrArg Register.index rs1, narrow⟩
  · intro ⟨_, rd, rs1, imm⟩
    exact ⟨congrArg Register.mk rd, congrArg (BitVec.signExtend 32) imm, congrArg Register.mk rs1⟩

/-- A word is determined by its text, apart from the selector of an indirect jump. -/
theorem text_decode_eq_iff : (decode left).text = (decode right).text ↔
    left = right ∨
      (decode left).opcode = .jalr ∧ (decode right).opcode = .jalr ∧ SameJump left right := by
  constructor
  · intro same
    obtain ⟨found, operands⟩ := parts_of_text same
    cases leftFound : Mnemonic.ofInstruction? (decode left) with
    | none =>
        rw [leftFound] at operands
        have raw := Numeral.hex_inj (List.singleton_inj.mp operands)
        exact .inl (BitVec.eq_of_toNat_eq raw)
    | some mnemonic =>
        have rightFound := found.symm.trans leftFound
        rw [leftFound] at operands
        by_cases direct : mnemonic = .jalr
        · subst direct
          have leftJumps := Mnemonic.opcode_of_ofInstruction? leftFound
          have rightJumps := Mnemonic.opcode_of_ofInstruction? rightFound
          exact .inr ⟨leftJumps, rightJumps,
            (operands_eq_iff_sameJump leftJumps rightJumps).mp operands⟩
        · have encoded := encode_eq_of_operands leftFound rightFound direct operands
          rw [encode_decode, encode_decode] at encoded
          exact .inl encoded
  · rintro (rfl | ⟨leftJumps, rightJumps, agree⟩)
    · rfl
    · have operands := (operands_eq_iff_sameJump leftJumps rightJumps).mpr agree
      rw [text_of_mnemonic (ofInstruction?_jalr leftJumps),
        text_of_mnemonic (ofInstruction?_jalr rightJumps), line, line, operands]

/-- No hart looks at the selector of an indirect jump. -/
theorem effect_eq_of_sameJump (hart : Hart) (leftJumps : (decode left).opcode = .jalr)
    (rightJumps : (decode right).opcode = .jalr) (agree : SameJump left right) :
    hart.effect (decode left) = hart.effect (decode right) := by
  have operands := (operands_eq_iff_sameJump leftJumps rightJumps).mpr agree
  obtain ⟨rd, imm, rs1⟩ := operands_jalr_eq_iff.mp operands
  rw [Hart.effect_of_mnemonic hart (ofInstruction?_jalr leftJumps),
    Hart.effect_of_mnemonic hart (ofInstruction?_jalr rightJumps)]
  simp only [Hart.carryOut, Hart.indirectTarget, rd, imm, rs1]

theorem effect_eq_of_text_eq (hart : Hart) (same : (decode left).text = (decode right).text) :
    hart.effect (decode left) = hart.effect (decode right) := by
  rcases text_decode_eq_iff.mp same with rfl | ⟨leftJumps, rightJumps, agree⟩
  · rfl
  · exact effect_eq_of_sameJump hart leftJumps rightJumps agree

theorem step_eq_of_effect_eq {hart : Hart} {before after : Memory}
    (same : ∀ hart : Hart, hart.effect (decode left) = hart.effect (decode right))
    (leftLoaded : before.load hart.pc = .ok left) (rightLoaded : after.load hart.pc = .ok right) :
    (hart.step before).2 = (hart.step after).2 := by
  obtain ⟨next, reason⟩ := Hart.execute_eq_of_effect_eq (same { hart with pc := hart.pc + 1 })
  rw [Hart.step_of_load leftLoaded, Hart.step_of_load rightLoaded]
  simp only [next, Counters.record_eq_of_reason?_eq _ reason]

theorem startsWith_unknown_iff :
    instruction.text.startsWith "unknown" = true ↔ Mnemonic.ofInstruction? instruction = none := by
  rw [String.startsWith_string_iff, text_eq_line, toList_line]
  cases found : Mnemonic.ofInstruction? instruction with
  | none => exact iff_of_true (List.prefix_append _ _) rfl
  | some mnemonic =>
      refine iff_of_false ?_ (Option.some_ne_none mnemonic)
      intro begins
      cases mnemonic <;> exact absurd (List.cons_prefix_cons.mp begins).1 (by decide)

theorem ignored_iff (instruction : Instruction) (hart : Hart) :
    (∃ reason, (hart.execute instruction).1 = .ignored instruction reason) ↔
      Mnemonic.ofInstruction? instruction = none := by
  cases found : Mnemonic.ofInstruction? instruction with
  | none =>
      obtain ⟨reason, ignored⟩ := Hart.execute_of_no_mnemonic hart found
      exact iff_of_true ⟨reason, by rw [ignored]⟩ rfl
  | some mnemonic =>
      obtain ⟨next, executed, -, -⟩ := Hart.execute_of_mnemonic hart found BitVec.ofInt_toInt
      refine iff_of_false ?_ (Option.some_ne_none mnemonic)
      rw [executed]
      intro ⟨reason, ignored⟩
      contradiction

/-- A text stands for one word, or for indirect jumps that differ in their selector only; what it
stands for has one effect, and a text is unknown exactly where a hart ignores the record. -/
theorem text_determines_effect :
    (∀ left right : Word, (decode left).text = (decode right).text ↔
      left = right ∨
        (decode left).opcode = .jalr ∧ (decode right).opcode = .jalr ∧ SameJump left right) ∧
    (∀ left right : Word, (decode left).text = (decode right).text → ∀ hart : Hart,
      (hart.execute (decode left)).2 = (hart.execute (decode right)).2 ∧
        (hart.execute (decode left)).1.reason? = (hart.execute (decode right)).1.reason? ∧
        ∀ before after : Memory, before.load hart.pc = .ok left → after.load hart.pc = .ok right →
          (hart.step before).2 = (hart.step after).2) ∧
    (∀ (instruction : Instruction) (hart : Hart),
      instruction.text.startsWith "unknown" = true ↔
        ∃ reason, (hart.execute instruction).1 = .ignored instruction reason) := by
  refine ⟨fun _ _ => text_decode_eq_iff, ?_, ?_⟩
  · intro left right same hart
    obtain ⟨next, reason⟩ := Hart.execute_eq_of_effect_eq (effect_eq_of_text_eq hart same)
    exact ⟨next, reason, fun _ _ => step_eq_of_effect_eq fun hart => effect_eq_of_text_eq hart same⟩
  · intro instruction hart
    rw [startsWith_unknown_iff, ignored_iff]

theorem text_determines_effect_other_selector :
    (decode 0x000080e7).text = (decode 0x000090e7).text ∧
      ∀ hart : Hart, hart.pc = 0 →
        (hart.step ⟨#[0x000080e7]⟩).2 = (hart.step ⟨#[0x000090e7]⟩).2 := by
  have same : (decode 0x000080e7).text = (decode 0x000090e7).text :=
    (text_determines_effect.1 _ _).mpr (by decide)
  refine ⟨same, ?_⟩
  intro hart start
  have loads (word : Word) : Memory.load ⟨#[word]⟩ hart.pc = .ok word := by
    rw [start]
    rfl
  exact (text_determines_effect.2.1 _ _ same hart).2.2 _ _ (loads _) (loads _)

end Instruction

end WordHart
