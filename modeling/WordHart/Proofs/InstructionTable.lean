import Mathlib
import WordHart.Hart.Execute

/-!
Seven operations change a hart by more than moving on, and each is one row: a
value for the destination register and a place to go on from. Rows are stated
over the integers and over the bits of a word as numbers; a word is the class
of an integer modulo its size, so `BitVec.ofInt` is where the arithmetic wraps.
-/

namespace WordHart

inductive Mnemonic where
  | lui
  | auipc
  | jal
  | jalr
  | addi
  | add
  | sub
  deriving DecidableEq

/-- The number that `width` bits of a word from bit `low` on denote. -/
def Word.field (word : Word) (low width : Nat) : Nat := word.toNat / 2 ^ low % 2 ^ width

/-- The integer that a number of the given width denotes in two's complement. -/
def signed (width n : Nat) : Int := if n < 2 ^ (width - 1) then n else n - 2 ^ width

namespace Mnemonic

def ofWord? (word : Word) : Option Mnemonic :=
  let opcode := word.field 0 7
  let funct3 := word.field 12 3
  let funct7 := word.field 25 7
  if opcode = 0b0110111 then some lui
  else if opcode = 0b0010111 then some auipc
  else if opcode = 0b1101111 then some jal
  else if opcode = 0b1100111 then some jalr
  else if opcode = 0b0010011 ∧ funct3 = 0 then some addi
  else if opcode = 0b0110011 ∧ funct3 = 0 ∧ funct7 = 0b0000000 then some add
  else if opcode = 0b0110011 ∧ funct3 = 0 ∧ funct7 = 0b0100000 then some sub
  else none

def ofInstruction? (instruction : Instruction) : Option Mnemonic :=
  match instruction.opcode, instruction.funct3 with
  | .lui, _ => some lui
  | .auipc, _ => some auipc
  | .jal, _ => some jal
  | .jalr, _ => some jalr
  | .opImm, .addSub => some addi
  | .op, .addSub =>
      if instruction.funct7 = 0b0000000 then some add
      else if instruction.funct7 = 0b0100000 then some sub
      else none
  | _, _ => none

/-- The immediate of an operation, as the integer that stands in the word. -/
def immediate (mnemonic : Mnemonic) (word : Word) : Int :=
  match mnemonic with
  | lui | auipc => word.toNat - word.field 0 12
  | jal =>
      signed 21 (2 ^ 20 * word.field 31 1 + 2 ^ 12 * word.field 12 8 + 2 ^ 11 * word.field 20 1 +
        2 * word.field 21 10)
  | jalr | addi => signed 12 (word.field 20 12)
  | add | sub => 0

end Mnemonic

structure Row where
  value : Int
  target : Int

namespace Hart

def content (hart : Hart) (register : Register) : Int :=
  if hart.mode.hardwireX0 ∧ register = .x0 then 0 else (hart.registers.read register).toNat

/-- What an indirect jump reads after its link was written, or before where the mode says so. -/
def base (hart : Hart) (link : Int) (rd rs1 : Register) : Int :=
  if rs1 = rd ∧ ¬ (hart.mode.hardwireX0 ∧ rd = .x0) ∧ ¬ hart.mode.jalrReadsRs1First then link
  else hart.content rs1

def row (hart : Hart) (link : Int) (rd rs1 rs2 : Register) (imm : Int) : Mnemonic → Row
  | .lui => ⟨imm, link⟩
  | .auipc => ⟨link + imm, link⟩
  | .jal => ⟨link, link + imm⟩
  | .jalr => ⟨link, (hart.base link rd rs1 + imm) / 2 * 2⟩
  | .addi => ⟨hart.content rs1 + imm, link⟩
  | .add => ⟨hart.content rs1 + hart.content rs2, link⟩
  | .sub => ⟨hart.content rs1 - hart.content rs2, link⟩

/-- The row is carried out in `next`, and nothing else that a row could change differs. -/
structure Follows (hart : Hart) (rd : Register) (row : Row) (next : Hart) : Prop where
  pc : next.pc = BitVec.ofInt 32 row.target
  registers : ∀ register, next.registers.read register =
    if register = rd ∧ ¬ (hart.mode.hardwireX0 ∧ rd = .x0) then BitVec.ofInt 32 row.value
    else hart.registers.read register
  mode : next.mode = hart.mode

end Hart

theorem ofInt_toNat (word : Word) : BitVec.ofInt 32 word.toNat = word := by simp

theorem ofInt_sub (left right : Int) :
    BitVec.ofInt 32 (left - right) = BitVec.ofInt 32 left - BitVec.ofInt 32 right := by
  rw [Int.sub_eq_add_neg, BitVec.ofInt_add, BitVec.ofInt_neg, BitVec.sub_eq_add_neg]

theorem clearLowest_eq_append (word : Word) :
    word &&& ~~~1 = word.extractLsb' 1 31 ++ (0 : BitVec 1) := by
  ext i bound
  simp only [BitVec.getElem_and, BitVec.getElem_not, BitVec.getElem_append]
  by_cases first : i = 0
  · simp [first]
  · have above : ¬ i < 1 := by omega
    have position : 1 + (i - 1) = i := by omega
    simp [BitVec.getElem_one, first, position, BitVec.getLsbD_eq_getElem bound]

theorem toNat_clearLowest (word : Word) : (word &&& ~~~1).toNat = word.toNat / 2 * 2 := by
  rw [clearLowest_eq_append, BitVec.toNat_append]
  simp only [BitVec.extractLsb'_toNat, Nat.shiftRight_eq_div_pow, Nat.shiftLeft_eq]
  simp
  omega

theorem ofInt_clearLowest (n : Int) : BitVec.ofInt 32 (n / 2 * 2) = BitVec.ofInt 32 n &&& ~~~1 := by
  apply BitVec.eq_of_toNat_eq
  rw [toNat_clearLowest, BitVec.toNat_ofInt, BitVec.toNat_ofInt]
  omega

namespace Hart

variable {hart : Hart} {instruction : Instruction}

theorem wired_iff {register : Register} :
    hart.wired register = true ↔ hart.mode.hardwireX0 = true ∧ register = .x0 := by
  simp [wired]

theorem write_of_wired {register : Register} {value : Word}
    (wiring : hart.wired register = true) : hart.write register value = hart := if_pos wiring

theorem write_of_not_wired {register : Register} {value : Word}
    (free : ¬ hart.wired register = true) :
    hart.write register value =
      { hart with registers := hart.registers.write register value } := if_neg free

theorem ofInt_content (hart : Hart) (register : Register) :
    BitVec.ofInt 32 (hart.content register) = hart.read register := by
  by_cases wiring : hart.wired register = true
  · rw [content, read, if_pos wiring, if_pos (wired_iff.mp wiring)]
    rfl
  · rw [content, read, if_neg wiring, if_neg (mt wired_iff.mpr wiring), ofInt_toNat]

theorem follows_moved (hart : Hart) (rd : Register) {row : Row} {value target : Word}
    (written : BitVec.ofInt 32 row.value = value) (moved : BitVec.ofInt 32 row.target = target) :
    hart.Follows rd row { hart.write rd value with pc := target } := by
  refine ⟨moved.symm, fun register => ?_, mode_write hart rd value⟩
  simp only [← wired_iff, written]
  by_cases wiring : hart.wired rd = true
  · simp only [write_of_wired wiring, wiring, not_true_eq_false, and_false, if_false]
  · simp only [write_of_not_wired wiring, RegisterFile.read_write, wiring, Bool.false_eq_true,
      not_false_eq_true, and_true, @eq_comm _ rd]

theorem follows_write (hart : Hart) (rd : Register) {row : Row} {value : Word}
    (written : BitVec.ofInt 32 row.value = value) (moved : BitVec.ofInt 32 row.target = hart.pc) :
    hart.Follows rd row (hart.write rd value) := by
  have followed := follows_moved hart rd written moved
  have unmoved : { hart.write rd value with pc := hart.pc } = hart.write rd value := by
    unfold write
    split <;> rfl
  rwa [unmoved] at followed

theorem follows_jump (hart : Hart) (rd : Register) {row : Row} {target : Word}
    (written : BitVec.ofInt 32 row.value = hart.pc) (moved : BitVec.ofInt 32 row.target = target) :
    hart.Follows rd row (hart.jump rd target) := follows_moved hart rd written moved

@[simp] theorem counters_jump (hart : Hart) (rd : Register) (target : Word) :
    (hart.jump rd target).counters = hart.counters := counters_write hart rd hart.pc

theorem ofInt_base (hart : Hart) (rd rs1 : Register) :
    BitVec.ofInt 32 (hart.base hart.pc.toNat rd rs1) =
      if hart.mode.jalrReadsRs1First then hart.read rs1 else (hart.write rd hart.pc).read rs1 := by
  simp only [read_write, base, ← wired_iff]
  by_cases early : hart.mode.jalrReadsRs1First = true
  · simp only [early, not_true_eq_false, and_false, if_false, if_true, ofInt_content]
  · by_cases linked : rd = rs1 ∧ ¬ hart.wired rd = true
    · rw [if_pos ⟨linked.1.symm, linked.2, early⟩, if_neg early, if_pos linked, ofInt_toNat]
    · have untouched :
          ¬ (rs1 = rd ∧ ¬ hart.wired rd = true ∧ ¬ hart.mode.jalrReadsRs1First = true) :=
        fun ⟨same, free, _⟩ => linked ⟨same.symm, free⟩
      rw [if_neg untouched, if_neg early, if_neg linked, ofInt_content]

theorem ofInt_indirectTarget {imm : Int} (same : BitVec.ofInt 32 imm = instruction.imm) :
    BitVec.ofInt 32 ((hart.base hart.pc.toNat instruction.rd instruction.rs1 + imm) / 2 * 2) =
      hart.indirectTarget instruction := by
  rw [ofInt_clearLowest, BitVec.ofInt_add, ofInt_base, same]
  rfl

/-- The hart after an operation, worked out on words. -/
def carryOut (hart : Hart) (instruction : Instruction) : Mnemonic → Hart
  | .lui => hart.write instruction.rd instruction.imm
  | .auipc => hart.write instruction.rd (hart.pc + instruction.imm)
  | .jal => hart.jump instruction.rd (hart.pc + instruction.imm)
  | .jalr => hart.jump instruction.rd (hart.indirectTarget instruction)
  | .addi => hart.write instruction.rd (hart.read instruction.rs1 + instruction.imm)
  | .add => hart.write instruction.rd (hart.read instruction.rs1 + hart.read instruction.rs2)
  | .sub => hart.write instruction.rd (hart.read instruction.rs1 - hart.read instruction.rs2)

theorem counters_carryOut (hart : Hart) (instruction : Instruction) (mnemonic : Mnemonic) :
    (hart.carryOut instruction mnemonic).counters = hart.counters := by
  cases mnemonic with
  | jal => exact counters_jump hart _ _
  | jalr => exact counters_jump hart _ _
  | _ => exact counters_write hart _ _

theorem follows_carryOut (hart : Hart) (mnemonic : Mnemonic) {imm : Int}
    (same : BitVec.ofInt 32 imm = instruction.imm) :
    hart.Follows instruction.rd
      (hart.row hart.pc.toNat instruction.rd instruction.rs1 instruction.rs2 imm mnemonic)
      (hart.carryOut instruction mnemonic) := by
  have link : BitVec.ofInt 32 hart.pc.toNat = hart.pc := ofInt_toNat hart.pc
  have relative : BitVec.ofInt 32 (hart.pc.toNat + imm) = hart.pc + instruction.imm := by
    rw [BitVec.ofInt_add, link, same]
  cases mnemonic with
  | lui => exact follows_write hart _ same link
  | auipc => exact follows_write hart _ relative link
  | jal => exact follows_jump hart _ link relative
  | jalr => exact follows_jump hart _ link (ofInt_indirectTarget same)
  | addi =>
      have sum : BitVec.ofInt 32 (hart.content instruction.rs1 + imm) =
          hart.read instruction.rs1 + instruction.imm := by
        rw [BitVec.ofInt_add, ofInt_content, same]
      exact follows_write hart _ sum link
  | add =>
      have sum : BitVec.ofInt 32 (hart.content instruction.rs1 + hart.content instruction.rs2) =
          hart.read instruction.rs1 + hart.read instruction.rs2 := by
        rw [BitVec.ofInt_add, ofInt_content, ofInt_content]
      exact follows_write hart _ sum link
  | sub =>
      have difference :
          BitVec.ofInt 32 (hart.content instruction.rs1 - hart.content instruction.rs2) =
            hart.read instruction.rs1 - hart.read instruction.rs2 := by
        rw [ofInt_sub, ofInt_content, ofInt_content]
      exact follows_write hart _ difference link

theorem effect_of_mnemonic (hart : Hart) {mnemonic : Mnemonic}
    (found : Mnemonic.ofInstruction? instruction = some mnemonic) :
    hart.effect instruction = .ok (hart.carryOut instruction mnemonic) := by
  unfold Mnemonic.ofInstruction? at found
  split at found
  case h_5 opcode funct3 =>
    cases found
    simp only [effect, opcode, funct3, carryOut]
  case h_6 opcode funct3 =>
    simp only [effect, opcode, funct3]
    split at found
    case isTrue adds =>
      cases found
      exact if_pos adds
    case isFalse other =>
      split at found
      case isFalse => contradiction
      case isTrue subtracts =>
        cases found
        exact (if_neg other).trans (if_pos subtracts)
  case h_7 => contradiction
  all_goals
    rename_i opcode
    cases found
    simp only [effect, opcode, carryOut]

theorem effect_of_no_mnemonic (hart : Hart)
    (missing : Mnemonic.ofInstruction? instruction = none) :
    ∃ reason, hart.effect instruction = .error reason := by
  cases opcode : instruction.opcode with
  | opImm =>
      cases funct3 : instruction.funct3 with
      | addSub => simp [Mnemonic.ofInstruction?, opcode, funct3] at missing
      | _ => simp only [effect, opcode, funct3, Except.error.injEq, exists_eq']
  | op =>
      cases funct3 : instruction.funct3 with
      | addSub =>
          simp only [Mnemonic.ofInstruction?, opcode, funct3] at missing
          split at missing
          case isTrue => contradiction
          case isFalse notAdd =>
            split at missing
            case isTrue => contradiction
            case isFalse notSub =>
              refine ⟨.funct7 instruction.funct7, ?_⟩
              simp only [effect, opcode, funct3]
              exact (if_neg notAdd).trans (if_neg notSub)
      | _ => simp only [effect, opcode, funct3, Except.error.injEq, exists_eq']
  | unsupported bits => simp only [effect, opcode, Except.error.injEq, exists_eq']
  | _ => simp [Mnemonic.ofInstruction?, opcode] at missing

end Hart

theorem Word.toNat_extractLsb' (word : Word) (low width : Nat) :
    (word.extractLsb' low width).toNat = word.field low width := by
  rw [BitVec.extractLsb'_toNat, Nat.shiftRight_eq_div_pow, Word.field]

theorem toNat_append {high low : Nat} (left : BitVec high) (right : BitVec low) :
    (left ++ right).toNat = left.toNat * 2 ^ low + right.toNat := by
  rw [BitVec.toNat_append, ← Nat.shiftLeft_add_eq_or_of_lt right.isLt, Nat.shiftLeft_eq]

theorem Opcode.toNat_of_ofBits {bits : BitVec 7} {opcode : Opcode}
    (found : ofBits bits = opcode) : bits.toNat = opcode.bits.toNat := by
  rw [← found, bits_ofBits, BitVec.toNat_setWidth]
  omega

theorem Opcode.toNat_of_ofBits_unsupported {bits : BitVec 7} {other : BitVec 8}
    (found : ofBits bits = unsupported other) :
    bits.toNat ≠ 0b0110111 ∧ bits.toNat ≠ 0b0010111 ∧ bits.toNat ≠ 0b1101111 ∧
      bits.toNat ≠ 0b1100111 ∧ bits.toNat ≠ 0b0010011 ∧ bits.toNat ≠ 0b0110011 := by
  unfold ofBits at found
  repeat' split at found
  all_goals first | contradiction | bv_omega

theorem Funct3.ofBits_eq_addSub_iff (bits : BitVec 3) : ofBits bits = addSub ↔ bits.toNat = 0 := by
  revert bits
  decide

theorem signed_toNat {width : Nat} (bits : BitVec (width + 1)) :
    signed (width + 1) bits.toNat = bits.toInt := by
  rw [BitVec.toInt_eq_toNat_cond, signed]
  have doubled : 2 ^ (width + 1) = 2 * 2 ^ width := Nat.pow_succ'
  simp only [Nat.add_sub_cancel, doubled]
  split <;> split <;> push_cast [doubled] <;> omega

namespace Mnemonic

theorem ofInstruction?_decode (word : Word) :
    ofInstruction? (.decode word) = ofWord? word := by
  unfold ofWord? ofInstruction? Instruction.decode
  simp only [← Word.toNat_extractLsb']
  generalize word.extractLsb' 0 7 = bits
  generalize word.extractLsb' 12 3 = selector
  generalize word.extractLsb' 25 7 = funct7
  have selected := Funct3.ofBits_eq_addSub_iff selector
  cases opcode : Opcode.ofBits bits with
  | opImm =>
      have number := Opcode.toNat_of_ofBits opcode
      cases funct3 : Funct3.ofBits selector <;> simp_all [Opcode.bits]
  | op =>
      have number := Opcode.toNat_of_ofBits opcode
      have adds : funct7.setWidth 8 = 0b0000000 ↔ funct7.toNat = 0b0000000 := by bv_omega
      have subtracts : funct7.setWidth 8 = 0b0100000 ↔ funct7.toNat = 0b0100000 := by bv_omega
      cases funct3 : Funct3.ofBits selector <;> simp_all [Opcode.bits]
  | unsupported other =>
      have excluded := Opcode.toNat_of_ofBits_unsupported opcode
      simp_all
  | _ => simp [Opcode.toNat_of_ofBits opcode, Opcode.bits]

theorem ofInt_upper (word : Word) :
    BitVec.ofInt 32 (word.toNat - word.field 0 12) = Format.upper.immediateOf word := by
  have bounded := word.isLt
  have zeros : (0 : BitVec 12).toNat = 0 := rfl
  apply BitVec.eq_of_toNat_eq
  rw [Format.immediateOf, toNat_append, Word.toNat_extractLsb', BitVec.toNat_ofInt, zeros]
  simp only [Word.field, Nat.reducePow, Nat.div_one]
  omega

theorem ofInt_signed {width : Nat} (bits : BitVec (width + 1)) :
    BitVec.ofInt 32 (signed (width + 1) bits.toNat) = bits.signExtend 32 := by
  rw [signed_toNat]
  rfl

theorem toNat_jumpOffset (word : Word) :
    (Format.jumpOffset word).toNat =
      2 ^ 20 * word.field 31 1 + 2 ^ 12 * word.field 12 8 + 2 ^ 11 * word.field 20 1 +
        2 * word.field 21 10 := by
  have zero : (0 : BitVec 1).toNat = 0 := rfl
  simp only [Format.jumpOffset, toNat_append, Word.toNat_extractLsb', zero]
  omega

def opcode : Mnemonic → Opcode
  | lui => .lui
  | auipc => .auipc
  | jal => .jal
  | jalr => .jalr
  | addi => .opImm
  | add | sub => .op

theorem opcode_of_ofInstruction? {instruction : Instruction} {mnemonic : Mnemonic}
    (found : ofInstruction? instruction = some mnemonic) :
    instruction.opcode = mnemonic.opcode := by
  unfold ofInstruction? at found
  split at found
  case h_6 opcode _ =>
    repeat' split at found
    all_goals cases found
    all_goals exact opcode
  case h_7 => cases found
  all_goals
    cases found
    assumption

theorem ofInt_immediate {word : Word} {mnemonic : Mnemonic} (found : ofWord? word = some mnemonic) :
    BitVec.ofInt 32 (mnemonic.immediate word) = (Instruction.decode word).imm := by
  rw [← ofInstruction?_decode] at found
  have imm : (Instruction.decode word).imm = mnemonic.opcode.format.immediateOf word := by
    rw [← opcode_of_ofInstruction? found]
    rfl
  have short : BitVec.ofInt 32 (signed 12 (word.field 20 12)) =
      Format.immediate.immediateOf word := by
    rw [← Word.toNat_extractLsb', ofInt_signed]
    rfl
  rw [imm]
  cases mnemonic with
  | lui => exact ofInt_upper word
  | auipc => exact ofInt_upper word
  | jal =>
      rw [immediate, ← toNat_jumpOffset, ofInt_signed]
      rfl
  | jalr => exact short
  | addi => exact short
  | add => rfl
  | sub => rfl

end Mnemonic

namespace Hart

variable {hart : Hart} {instruction : Instruction}

theorem execute_of_mnemonic (hart : Hart) {mnemonic : Mnemonic} {imm : Int}
    (found : Mnemonic.ofInstruction? instruction = some mnemonic)
    (same : BitVec.ofInt 32 imm = instruction.imm) :
    ∃ next, hart.execute instruction = (.executed instruction, next) ∧
      next.counters = hart.counters ∧
      hart.Follows instruction.rd
        (hart.row hart.pc.toNat instruction.rd instruction.rs1 instruction.rs2 imm mnemonic)
        next := by
  have effect := effect_of_mnemonic hart found
  exact ⟨hart.carryOut instruction mnemonic, by simp only [execute, effect],
    counters_carryOut hart instruction mnemonic, follows_carryOut hart mnemonic same⟩

theorem execute_of_no_mnemonic (hart : Hart)
    (missing : Mnemonic.ofInstruction? instruction = none) :
    ∃ reason, hart.execute instruction = (.ignored instruction reason, hart) := by
  obtain ⟨reason, effect⟩ := effect_of_no_mnemonic hart missing
  exact ⟨reason, by simp only [execute, effect]⟩

theorem step_of_mnemonic {memory : Memory} {word : Word} {mnemonic : Mnemonic}
    (loaded : memory.load hart.pc = .ok word) (found : Mnemonic.ofWord? word = some mnemonic) :
    ∃ next, hart.step memory = (.ok (.executed (.decode word)), next) ∧
      next.counters = ⟨hart.counters.cycles + 1, hart.counters.executed + 1,
        hart.counters.ignored⟩ ∧
      hart.Follows (.ofNat (word.field 7 5))
        (hart.row ((hart.pc.toNat + 1) % 2 ^ 32) (.ofNat (word.field 7 5))
          (.ofNat (word.field 15 5)) (.ofNat (word.field 20 5)) (mnemonic.immediate word) mnemonic)
        next := by
  have link : ((hart.pc + 1).toNat : Int) = (hart.pc.toNat + 1) % 2 ^ 32 := by
    rw [BitVec.toNat_add]
    rfl
  have recorded := (Mnemonic.ofInstruction?_decode word).trans found
  obtain ⟨next, executed, counted, followed⟩ := execute_of_mnemonic
    { hart with pc := hart.pc + 1 } recorded (Mnemonic.ofInt_immediate found)
  refine ⟨{ next with counters := next.counters.record (.executed (.decode word)) }, ?_, ?_, ?_⟩
  · rw [step_of_load loaded, executed]
  · rw [counted]
    rfl
  · have named (low : Nat) : Register.ofNat (word.field low 5) = ⟨word.extractLsb' low 5⟩ := by
      rw [← Word.toNat_extractLsb', Register.ofNat, BitVec.ofNat_toNat, BitVec.setWidth_eq]
    rw [named, named, named, ← link]
    exact ⟨followed.pc, followed.registers, followed.mode⟩

theorem step_of_no_mnemonic {memory : Memory} {word : Word}
    (loaded : memory.load hart.pc = .ok word) (missing : Mnemonic.ofWord? word = none) :
    ∃ reason, hart.step memory = (.ok (.ignored (.decode word) reason),
      { hart with
        pc := hart.pc + 1
        counters := ⟨hart.counters.cycles + 1, hart.counters.executed,
          hart.counters.ignored + 1⟩ }) := by
  have unrecorded := (Mnemonic.ofInstruction?_decode word).trans missing
  obtain ⟨reason, ignored⟩ :=
    execute_of_no_mnemonic { hart with pc := hart.pc + 1 } unrecorded
  refine ⟨reason, ?_⟩
  rw [step_of_load loaded, ignored]
  rfl

/-- A cycle and an execution on their own do what the table says, and nothing else. -/
theorem step_execute_follow_table (hart : Hart) (memory : Memory) :
    (memory.size ≤ hart.pc.toNat →
      hart.step memory = (.error (.outOfBounds hart.pc.toNat), hart)) ∧
    (∀ word, memory.words[hart.pc.toNat]? = some word →
      match Mnemonic.ofWord? word with
      | some mnemonic =>
          ∃ next, hart.step memory = (.ok (.executed (.decode word)), next) ∧
            next.counters = ⟨hart.counters.cycles + 1, hart.counters.executed + 1,
              hart.counters.ignored⟩ ∧
            hart.Follows (.ofNat (word.field 7 5))
              (hart.row ((hart.pc.toNat + 1) % 2 ^ 32) (.ofNat (word.field 7 5))
                (.ofNat (word.field 15 5)) (.ofNat (word.field 20 5)) (mnemonic.immediate word)
                mnemonic)
              next
      | none =>
          ∃ reason, hart.step memory = (.ok (.ignored (.decode word) reason),
            { hart with
              pc := hart.pc + 1
              counters := ⟨hart.counters.cycles + 1, hart.counters.executed,
                hart.counters.ignored + 1⟩ })) ∧
    (∀ instruction : Instruction,
      match Mnemonic.ofInstruction? instruction with
      | some mnemonic =>
          ∃ next, hart.execute instruction = (.executed instruction, next) ∧
            next.counters = hart.counters ∧
            hart.Follows instruction.rd
              (hart.row hart.pc.toNat instruction.rd instruction.rs1 instruction.rs2
                instruction.imm.toInt mnemonic)
              next
      | none => ∃ reason, hart.execute instruction = (.ignored instruction reason, hart)) := by
  refine ⟨?_, ?_, ?_⟩
  · intro outside
    have missing : memory.cells[hart.pc.toNat]? = none := Array.getElem?_eq_none outside
    apply step_of_load_error
    rw [Memory.load, missing]
  · intro word present
    have stored : memory.cells[hart.pc.toNat]? = some word := by
      rw [← Array.getElem?_toList]
      exact present
    have loaded : memory.load hart.pc = .ok word := by rw [Memory.load, stored]
    split
    case h_1 found => exact step_of_mnemonic loaded found
    case h_2 missing => exact step_of_no_mnemonic loaded missing
  · intro instruction
    split
    case h_1 found => exact execute_of_mnemonic hart found BitVec.ofInt_toInt
    case h_2 missing => exact execute_of_no_mnemonic hart missing

theorem step_execute_follow_table_aliased_link :
    let hart := Hart.new ⟨true, false⟩
    hart.step (.zero 0) = (.error (.outOfBounds 0), hart) ∧
      ∃ next, hart.step ⟨#[0x005080e7]⟩ = (.ok (.executed (.decode 0x005080e7)), next) ∧
        next.pc = 6 ∧ next.registers.read (.ofNat 1) = 1 := by
  intro hart
  refine ⟨(step_execute_follow_table hart (.zero 0)).1 (by decide), ?_⟩
  have table := (step_execute_follow_table hart ⟨#[0x005080e7]⟩).2.1 0x005080e7 rfl
  have found : Mnemonic.ofWord? 0x005080e7 = some .jalr := by decide
  rw [found] at table
  obtain ⟨next, stepped, -, followed⟩ := table
  refine ⟨next, stepped, ?_, ?_⟩
  · rw [followed.pc]
    decide
  · rw [followed.registers]
    decide

end Hart

end WordHart
