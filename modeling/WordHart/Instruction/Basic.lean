import WordHart.Register

namespace WordHart

/-- The major opcodes that the hart models, and all others with their bits. -/
inductive Opcode where
  | lui
  | auipc
  | jal
  | jalr
  | opImm
  | op
  | unsupported (bits : BitVec 8)
  deriving DecidableEq

namespace Opcode

def ofBits (bits : BitVec 7) : Opcode :=
  if bits = 0b0110111 then lui
  else if bits = 0b0010111 then auipc
  else if bits = 0b1101111 then jal
  else if bits = 0b1100111 then jalr
  else if bits = 0b0010011 then opImm
  else if bits = 0b0110011 then op
  else unsupported (bits.setWidth 8)

def bits : Opcode → BitVec 8
  | lui => 0b0110111
  | auipc => 0b0010111
  | jal => 0b1101111
  | jalr => 0b1100111
  | opImm => 0b0010011
  | op => 0b0110011
  | unsupported bits => bits

theorem bits_ofBits (value : BitVec 7) : (ofBits value).bits = value.setWidth 8 := by
  revert value
  decide

end Opcode

inductive Funct3 where
  | addSub
  | sll
  | slt
  | sltu
  | xor
  | srlSra
  | or
  | and
  deriving DecidableEq

namespace Funct3

def ofBits (bits : BitVec 3) : Funct3 :=
  if bits = 0 then addSub
  else if bits = 1 then sll
  else if bits = 2 then slt
  else if bits = 3 then sltu
  else if bits = 4 then xor
  else if bits = 5 then srlSra
  else if bits = 6 then or
  else and

def bits : Funct3 → BitVec 3
  | addSub => 0
  | sll => 1
  | slt => 2
  | sltu => 3
  | xor => 4
  | srlSra => 5
  | or => 6
  | and => 7

theorem bits_ofBits (value : BitVec 3) : (ofBits value).bits = value := by
  revert value
  decide

theorem ofBits_bits (selector : Funct3) : ofBits selector.bits = selector := by
  cases selector <;> rfl

end Funct3

/-- The fields of a word. They are independent of one another, so a record need not come from any
word. -/
structure Instruction where
  raw : Word
  opcode : Opcode
  rd : Register
  funct3 : Funct3
  rs1 : Register
  rs2 : Register
  funct7 : BitVec 8
  imm : Word
  deriving DecidableEq

namespace Instruction

def addSelector : BitVec 8 := 0b0000000

def subSelector : BitVec 8 := 0b0100000

end Instruction

end WordHart
