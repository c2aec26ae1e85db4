import WordHart.Instruction.Basic

namespace WordHart.Instruction

/-- The upper twenty bits of the immediate, as an assembler writes them. -/
def upperText (instruction : Instruction) : String := Numeral.hex 1 (instruction.imm >>> 12).toNat

def immText (instruction : Instruction) : String := Numeral.signed instruction.imm.toInt

/-- The text of a record whose operation has no mnemonic. -/
def unknownText (instruction : Instruction) : String :=
  "unknown " ++ Numeral.hex 8 instruction.raw.toNat

def text (instruction : Instruction) : String :=
  let rd := instruction.rd.text
  let rs1 := instruction.rs1.text
  let rs2 := instruction.rs2.text
  match instruction.opcode with
  | .lui => "lui " ++ rd ++ ", " ++ instruction.upperText
  | .auipc => "auipc " ++ rd ++ ", " ++ instruction.upperText
  | .jal => "jal " ++ rd ++ ", " ++ instruction.immText
  | .jalr => "jalr " ++ rd ++ ", " ++ instruction.immText ++ "(" ++ rs1 ++ ")"
  | .opImm =>
      if instruction.funct3 = .addSub then
        "addi " ++ rd ++ ", " ++ rs1 ++ ", " ++ instruction.immText
      else instruction.unknownText
  | .op =>
      if instruction.funct3 = .addSub ∧ instruction.funct7 = addSelector then
        "add " ++ rd ++ ", " ++ rs1 ++ ", " ++ rs2
      else if instruction.funct3 = .addSub ∧ instruction.funct7 = subSelector then
        "sub " ++ rd ++ ", " ++ rs1 ++ ", " ++ rs2
      else instruction.unknownText
  | .unsupported _ => instruction.unknownText

end WordHart.Instruction
