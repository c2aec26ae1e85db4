import WordHart.Hart.Basic
import WordHart.Instruction.Decode
import WordHart.Instruction.Text

namespace WordHart

/-- The field of an instruction that puts it outside the modelled operations. -/
inductive Unsupported where
  | opcode (bits : BitVec 8)
  | funct3 (opcode : Opcode) (selector : Funct3)
  | funct7 (bits : BitVec 8)
  deriving DecidableEq

def Unsupported.text : Unsupported → String
  | opcode bits => "unsupported opcode " ++ Numeral.binary 7 bits.toNat
  | funct3 major selector =>
      "unsupported funct3 " ++ Numeral.binary 3 selector.bits.toNat ++
        " for opcode " ++ Numeral.binary 7 major.bits.toNat
  | funct7 bits => "unsupported funct7 " ++ Numeral.binary 7 bits.toNat

inductive Outcome where
  | executed (instruction : Instruction)
  | ignored (instruction : Instruction) (reason : Unsupported)
  deriving DecidableEq

namespace Outcome

def instruction : Outcome → Instruction
  | executed instruction => instruction
  | ignored instruction _ => instruction

def reason? : Outcome → Option Unsupported
  | executed _ => none
  | ignored _ reason => some reason

end Outcome

def Counters.record (counters : Counters) : Outcome → Counters
  | .executed _ =>
      { counters with cycles := counters.cycles + 1, executed := counters.executed + 1 }
  | .ignored _ _ =>
      { counters with cycles := counters.cycles + 1, ignored := counters.ignored + 1 }

namespace Hart

def jump (hart : Hart) (rd : Register) (target : Word) : Hart :=
  { hart.write rd hart.pc with pc := target }

/-- The target of an indirect jump: the base and the immediate added, with bit 0 cleared. -/
def indirectTarget (hart : Hart) (instruction : Instruction) : Word :=
  let base :=
    if hart.mode.jalrReadsRs1First then hart.read instruction.rs1
    else (hart.write instruction.rd hart.pc).read instruction.rs1
  (base + instruction.imm) &&& ~~~1

/-- The hart after an instruction. The program counter stands behind it already, so it is the link
value of a jump. -/
def effect (hart : Hart) (instruction : Instruction) : Except Unsupported Hart :=
  let rd := instruction.rd
  let imm := instruction.imm
  match instruction.opcode with
  | .lui => .ok (hart.write rd imm)
  | .auipc => .ok (hart.write rd (hart.pc + imm))
  | .jal => .ok (hart.jump rd (hart.pc + imm))
  | .jalr => .ok (hart.jump rd (hart.indirectTarget instruction))
  | .opImm =>
      match instruction.funct3 with
      | .addSub => .ok (hart.write rd (hart.read instruction.rs1 + imm))
      | other => .error (.funct3 .opImm other)
  | .op =>
      match instruction.funct3 with
      | .addSub =>
          let left := hart.read instruction.rs1
          let right := hart.read instruction.rs2
          if instruction.funct7 = Instruction.addSelector then .ok (hart.write rd (left + right))
          else if instruction.funct7 = Instruction.subSelector then
            .ok (hart.write rd (left - right))
          else .error (.funct7 instruction.funct7)
      | other => .error (.funct3 .op other)
  | .unsupported bits => .error (.opcode bits)

/-- Carry out an instruction, or ignore it and leave the hart as it is. -/
def execute (hart : Hart) (instruction : Instruction) : Outcome × Hart :=
  match hart.effect instruction with
  | .ok next => (.executed instruction, next)
  | .error reason => (.ignored instruction reason, hart)

/-- One cycle: fetch, decode, execute and count. It ends with the fetch if that fails. -/
def step (hart : Hart) (memory : Memory) : Except AccessError Outcome × Hart :=
  match hart.fetch memory with
  | (.error reason, fetched) => (.error reason, fetched)
  | (.ok word, fetched) =>
      let (outcome, next) := fetched.execute (.decode word)
      (.ok outcome, { next with counters := next.counters.record outcome })

theorem step_of_load {hart : Hart} {memory : Memory} {word : Word}
    (loaded : memory.load hart.pc = .ok word) :
    hart.step memory =
      let (outcome, next) := Hart.execute { hart with pc := hart.pc + 1 } (.decode word)
      (.ok outcome, { next with counters := next.counters.record outcome }) := by
  simp [step, fetch, loaded]

theorem step_of_load_error {hart : Hart} {memory : Memory} {reason : AccessError}
    (failed : memory.load hart.pc = .error reason) : hart.step memory = (.error reason, hart) := by
  simp [step, fetch, failed]

end Hart

end WordHart
