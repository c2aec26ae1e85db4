import WordHart.Instruction.Basic

namespace WordHart

inductive Format where
  /-- Bits 31:20, sign extended. -/
  | immediate
  /-- Bits 31:12, in place. -/
  | upper
  /-- An even offset of 21 bits scattered over bits 31:12, sign extended. -/
  | jump
  /-- There is no immediate; it reads as zero. -/
  | register
  deriving DecidableEq

def Opcode.format : Opcode → Format
  | .opImm | .jalr => .immediate
  | .lui | .auipc => .upper
  | .jal => .jump
  | .op | .unsupported _ => .register

namespace Format

/-- The even offset that a jump word holds: bit 31, bits 19:12, bit 20, bits 30:21 and a zero. -/
def jumpOffset (word : Word) : BitVec 21 :=
  word.extractLsb' 31 1 ++ word.extractLsb' 12 8 ++ word.extractLsb' 20 1 ++
    word.extractLsb' 21 10 ++ (0 : BitVec 1)

def immediateOf : Format → Word → Word
  | immediate, word => (word.extractLsb' 20 12).signExtend 32
  | upper, word => word.extractLsb' 12 20 ++ (0 : BitVec 12)
  | jump, word => (jumpOffset word).signExtend 32
  | register, _ => 0

end Format

namespace Instruction

def decode (word : Word) : Instruction :=
  let opcode := Opcode.ofBits (word.extractLsb' 0 7)
  { raw := word
    opcode
    rd := ⟨word.extractLsb' 7 5⟩
    funct3 := Funct3.ofBits (word.extractLsb' 12 3)
    rs1 := ⟨word.extractLsb' 15 5⟩
    rs2 := ⟨word.extractLsb' 20 5⟩
    funct7 := (word.extractLsb' 25 7).setWidth 8
    imm := opcode.format.immediateOf word }

@[simp] theorem raw_decode (word : Word) : (decode word).raw = word := rfl

/-- The word with a 12-bit immediate in bits 31:20. -/
def immediateWord (imm : BitVec 12) (rs1 : Register) (funct3 : BitVec 3) (rd : Register)
    (opcode : BitVec 7) : Word :=
  imm ++ rs1.index ++ funct3 ++ rd.index ++ opcode

def registerWord (funct7 : BitVec 7) (rs2 rs1 : Register) (funct3 : BitVec 3) (rd : Register)
    (opcode : BitVec 7) : Word :=
  funct7 ++ rs2.index ++ rs1.index ++ funct3 ++ rd.index ++ opcode

/-- The word with a 20-bit value in bits 31:12. -/
def upperWord (upper : BitVec 20) (rd : Register) (opcode : BitVec 7) : Word :=
  upper ++ rd.index ++ opcode

/-- The word of a jump by an offset, whose lowest bit is dropped. -/
def jumpWord (offset : BitVec 21) (rd : Register) : Word :=
  offset.extractLsb' 20 1 ++ offset.extractLsb' 1 10 ++ offset.extractLsb' 11 1 ++
    offset.extractLsb' 12 8 ++ rd.index ++ (0b1101111 : BitVec 7)

end Instruction

end WordHart
