import Mathlib
import WordHart.Proofs.InstructionTable

namespace WordHart

theorem setWidth_signExtend {narrow wide : Nat} (fits : narrow ≤ wide) (bits : BitVec narrow) :
    (bits.signExtend wide).setWidth narrow = bits := by
  ext i bound
  have inside : i < wide := by omega
  simp [BitVec.getElem_signExtend, inside, bound]

theorem signExtend_setWidth {narrow wide : Nat} (fits : narrow < wide) {value : BitVec wide}
    (lower : -2 ^ narrow ≤ value.toInt) (upper : value.toInt < 2 ^ narrow) :
    (value.setWidth (narrow + 1)).signExtend wide = value := by
  have divides : 2 ^ (narrow + 1) ∣ 2 ^ wide := Nat.pow_dvd_pow 2 fits
  apply BitVec.eq_of_toInt_eq
  rw [BitVec.toInt_signExtend, BitVec.toInt_setWidth, Nat.min_eq_right fits, Int.bmod_bmod]
  calc (value.toNat : Int).bmod (2 ^ (narrow + 1))
      = ((value.toNat : Int).bmod (2 ^ wide)).bmod (2 ^ (narrow + 1)) := by
        rw [Int.bmod_bmod_of_dvd divides]
    _ = value.toInt.bmod (2 ^ (narrow + 1)) := by rw [BitVec.toInt_eq_toNat_bmod]
    _ = value.toInt := by
        apply Int.bmod_eq_of_le
        · push_cast
          omega
        · push_cast
          omega

theorem Word.extractLsb'_eq_iff {word : Word} {low width : Nat} {bits : BitVec width} :
    word.extractLsb' low width = bits ↔ word.field low width = bits.toNat := by
  rw [← Word.toNat_extractLsb', BitVec.toNat_inj]

namespace Instruction

/-- The word that the fields of a record make up in the format of its opcode. -/
def encode (instruction : Instruction) : Word :=
  let opcode := instruction.opcode.bits.setWidth 7
  let funct3 := instruction.funct3.bits
  match instruction.opcode.format with
  | .immediate =>
      immediateWord (instruction.imm.setWidth 12) instruction.rs1 funct3 instruction.rd opcode
  | .upper => upperWord ((instruction.imm >>> 12).setWidth 20) instruction.rd opcode
  | .jump => jumpWord (instruction.imm.setWidth 21) instruction.rd
  | .register =>
      registerWord (instruction.funct7.setWidth 7) instruction.rs2 instruction.rs1 funct3
        instruction.rd opcode

variable {instruction : Instruction} {word : Word}

theorem encode_of_immediate (format : instruction.opcode.format = .immediate) :
    instruction.encode =
      immediateWord (instruction.imm.setWidth 12) instruction.rs1 instruction.funct3.bits
        instruction.rd (instruction.opcode.bits.setWidth 7) := by
  simp only [encode, format]

theorem encode_of_upper (format : instruction.opcode.format = .upper) :
    instruction.encode =
      upperWord ((instruction.imm >>> 12).setWidth 20) instruction.rd
        (instruction.opcode.bits.setWidth 7) := by
  simp only [encode, format]

theorem encode_of_jump (format : instruction.opcode.format = .jump) :
    instruction.encode = jumpWord (instruction.imm.setWidth 21) instruction.rd := by
  simp only [encode, format]

theorem encode_of_register (format : instruction.opcode.format = .register) :
    instruction.encode =
      registerWord (instruction.funct7.setWidth 7) instruction.rs2 instruction.rs1
        instruction.funct3.bits instruction.rd (instruction.opcode.bits.setWidth 7) := by
  simp only [encode, format]

section RegisterWord

variable (funct7 : BitVec 7) (rs2 rs1 : Register) (funct3 : BitVec 3) (rd : Register)
  (opcode : BitVec 7)

theorem toNat_registerWord :
    (registerWord funct7 rs2 rs1 funct3 rd opcode).toNat =
      2 ^ 25 * funct7.toNat + 2 ^ 20 * rs2.index.toNat + 2 ^ 15 * rs1.index.toNat +
        2 ^ 12 * funct3.toNat + 2 ^ 7 * rd.index.toNat + opcode.toNat := by
  simp only [registerWord, toNat_append]
  omega

/-- Each field is read back from its own place. -/
theorem fields_registerWord :
    let word := registerWord funct7 rs2 rs1 funct3 rd opcode
    word.extractLsb' 25 7 = funct7 ∧ word.extractLsb' 20 5 = rs2.index ∧
      word.extractLsb' 15 5 = rs1.index ∧ word.extractLsb' 12 3 = funct3 ∧
      word.extractLsb' 7 5 = rd.index ∧ word.extractLsb' 0 7 = opcode := by
  intro word
  have funct7Bound := funct7.isLt
  have rs2Bound := rs2.index.isLt
  have rs1Bound := rs1.index.isLt
  have funct3Bound := funct3.isLt
  have rdBound := rd.index.isLt
  have opcodeBound := opcode.isLt
  simp only [Word.extractLsb'_eq_iff, Word.field, word, toNat_registerWord]
  omega

theorem decode_registerWord :
    decode (registerWord funct7 rs2 rs1 funct3 rd opcode) =
      { raw := registerWord funct7 rs2 rs1 funct3 rd opcode
        opcode := .ofBits opcode
        rd
        funct3 := .ofBits funct3
        rs1
        rs2
        funct7 := funct7.setWidth 8
        imm := (Opcode.ofBits opcode).format.immediateOf
          (registerWord funct7 rs2 rs1 funct3 rd opcode) } := by
  obtain ⟨atFunct7, atRs2, atRs1, atFunct3, atRd, atOpcode⟩ :=
    fields_registerWord funct7 rs2 rs1 funct3 rd opcode
  simp only [decode, atFunct7, atRs2, atRs1, atFunct3, atRd, atOpcode]

/-- The fields as numbers of full width, shifted to their places. -/
theorem registerWord_eq_or :
    registerWord funct7 rs2 rs1 funct3 rd opcode =
      funct7.setWidth 32 <<< 25 ||| rs2.index.setWidth 32 <<< 20 |||
        rs1.index.setWidth 32 <<< 15 ||| funct3.setWidth 32 <<< 12 |||
        rd.index.setWidth 32 <<< 7 ||| opcode.setWidth 32 := by
  ext i
  simp [registerWord]
  grind

end RegisterWord

theorem registerWord_fields (word : Word) :
    registerWord (word.extractLsb' 25 7) ⟨word.extractLsb' 20 5⟩ ⟨word.extractLsb' 15 5⟩
      (word.extractLsb' 12 3) ⟨word.extractLsb' 7 5⟩ (word.extractLsb' 0 7) = word := by
  apply BitVec.eq_of_toNat_eq
  rw [toNat_registerWord]
  simp only [Word.toNat_extractLsb', Word.field]
  omega

theorem immediateWord_eq_registerWord (imm : BitVec 12) (rs1 : Register) (funct3 : BitVec 3)
    (rd : Register) (opcode : BitVec 7) :
    immediateWord imm rs1 funct3 rd opcode =
      registerWord (imm.extractLsb' 5 7) ⟨imm.extractLsb' 0 5⟩ rs1 funct3 rd opcode := by
  apply BitVec.eq_of_toNat_eq
  rw [toNat_registerWord]
  simp only [immediateWord, toNat_append, BitVec.extractLsb'_toNat, Nat.shiftRight_eq_div_pow]
  omega

theorem upperWord_eq_registerWord (upper : BitVec 20) (rd : Register) (opcode : BitVec 7) :
    upperWord upper rd opcode =
      registerWord (upper.extractLsb' 13 7) ⟨upper.extractLsb' 8 5⟩ ⟨upper.extractLsb' 3 5⟩
        (upper.extractLsb' 0 3) rd opcode := by
  apply BitVec.eq_of_toNat_eq
  rw [toNat_registerWord]
  simp only [upperWord, toNat_append, BitVec.extractLsb'_toNat, Nat.shiftRight_eq_div_pow]
  omega

theorem jumpWord_eq_upperWord (offset : BitVec 21) (rd : Register) :
    jumpWord offset rd =
      upperWord (offset.extractLsb' 20 1 ++ offset.extractLsb' 1 10 ++ offset.extractLsb' 11 1 ++
        offset.extractLsb' 12 8) rd 0b1101111 := rfl

theorem immediate_immediateWord (imm : BitVec 12) (rs1 : Register) (funct3 : BitVec 3)
    (rd : Register) (opcode : BitVec 7) :
    (immediateWord imm rs1 funct3 rd opcode).extractLsb' 20 12 = imm := by
  have immBound := imm.isLt
  have rs1Bound := rs1.index.isLt
  have funct3Bound := funct3.isLt
  have rdBound := rd.index.isLt
  have opcodeBound := opcode.isLt
  rw [Word.extractLsb'_eq_iff]
  simp only [Word.field, immediateWord, toNat_append]
  omega

theorem upper_upperWord (upper : BitVec 20) (rd : Register) (opcode : BitVec 7) :
    (upperWord upper rd opcode).extractLsb' 12 20 = upper := by
  have upperBound := upper.isLt
  have rdBound := rd.index.isLt
  have opcodeBound := opcode.isLt
  rw [Word.extractLsb'_eq_iff]
  simp only [Word.field, upperWord, toNat_append]
  omega

/-- A jump word holds the pieces of its offset in another order. -/
theorem fields_jumpWord (offset : BitVec 21) (rd : Register) :
    let word := jumpWord offset rd
    word.extractLsb' 31 1 = offset.extractLsb' 20 1 ∧
      word.extractLsb' 21 10 = offset.extractLsb' 1 10 ∧
      word.extractLsb' 20 1 = offset.extractLsb' 11 1 ∧
      word.extractLsb' 12 8 = offset.extractLsb' 12 8 := by
  intro word
  have rdBound := rd.index.isLt
  have opcode : (0b1101111 : BitVec 7).toNat = 0b1101111 := rfl
  simp only [Word.extractLsb'_eq_iff, Word.field, word, jumpWord, toNat_append, opcode]
  -- The pieces are numbers of their own here: how they are cut out of the offset plays no part.
  generalize offset.extractLsb' 20 1 = sign
  generalize offset.extractLsb' 1 10 = low
  generalize offset.extractLsb' 11 1 = middle
  generalize offset.extractLsb' 12 8 = high
  have signBound := sign.isLt
  have lowBound := low.isLt
  have middleBound := middle.isLt
  have highBound := high.isLt
  omega

theorem jumpOffset_jumpWord (offset : BitVec 21) (rd : Register) :
    (Format.jumpOffset (jumpWord offset rd)).toNat = offset.toNat / 2 * 2 := by
  obtain ⟨sign, low, middle, high⟩ := fields_jumpWord offset rd
  have zero : (0 : BitVec 1).toNat = 0 := rfl
  simp only [Format.jumpOffset, sign, low, middle, high, toNat_append, zero,
    BitVec.extractLsb'_toNat, Nat.shiftRight_eq_div_pow]
  omega

theorem fields_jumpOffset (word : Word) :
    let offset := Format.jumpOffset word
    offset.extractLsb' 20 1 = word.extractLsb' 31 1 ∧
      offset.extractLsb' 1 10 = word.extractLsb' 21 10 ∧
      offset.extractLsb' 11 1 = word.extractLsb' 20 1 ∧
      offset.extractLsb' 12 8 = word.extractLsb' 12 8 := by
  intro offset
  have zero : (0 : BitVec 1).toNat = 0 := rfl
  simp only [offset, Format.jumpOffset]
  generalize word.extractLsb' 31 1 = sign
  generalize word.extractLsb' 21 10 = low
  generalize word.extractLsb' 20 1 = middle
  generalize word.extractLsb' 12 8 = high
  have signBound := sign.isLt
  have lowBound := low.isLt
  have middleBound := middle.isLt
  have highBound := high.isLt
  simp only [← BitVec.toNat_inj, BitVec.extractLsb'_toNat, Nat.shiftRight_eq_div_pow, toNat_append,
    zero]
  omega

theorem immediateWord_fields (word : Word) :
    immediateWord (word.extractLsb' 20 12) ⟨word.extractLsb' 15 5⟩ (word.extractLsb' 12 3)
      ⟨word.extractLsb' 7 5⟩ (word.extractLsb' 0 7) = word := by
  apply BitVec.eq_of_toNat_eq
  simp only [immediateWord, toNat_append, Word.toNat_extractLsb', Word.field]
  omega

theorem upperWord_fields (word : Word) :
    upperWord (word.extractLsb' 12 20) ⟨word.extractLsb' 7 5⟩ (word.extractLsb' 0 7) = word := by
  apply BitVec.eq_of_toNat_eq
  simp only [upperWord, toNat_append, Word.toNat_extractLsb', Word.field]
  omega

theorem jumpWord_fields (opcode : word.extractLsb' 0 7 = 0b1101111) :
    jumpWord (Format.jumpOffset word) ⟨word.extractLsb' 7 5⟩ = word := by
  obtain ⟨sign, low, middle, high⟩ := fields_jumpOffset word
  apply BitVec.eq_of_toNat_eq
  simp only [jumpWord, sign, low, middle, high, ← opcode, toNat_append, Word.toNat_extractLsb',
    Word.field]
  omega

theorem and_mask (word : Word) (low width : Nat) (fits : width ≤ 32) :
    word >>> low &&& BitVec.ofNat 32 (2 ^ width - 1) = (word.extractLsb' low width).setWidth 32 := by
  apply BitVec.eq_of_toNat_eq
  have small : 2 ^ width ≤ 2 ^ 32 := Nat.pow_le_pow_right (by decide) fits
  have mask : (2 ^ width - 1) % 2 ^ 32 = 2 ^ width - 1 := Nat.mod_eq_of_lt (by omega)
  have piece : word.toNat >>> low % 2 ^ width < 2 ^ 32 :=
    Nat.lt_of_lt_of_le (Nat.mod_lt _ (Nat.two_pow_pos width)) small
  rw [BitVec.toNat_and, BitVec.toNat_ushiftRight, BitVec.toNat_ofNat, mask,
    Nat.and_two_pow_sub_one_eq_mod, BitVec.toNat_setWidth, BitVec.extractLsb'_toNat,
    Nat.mod_eq_of_lt piece]

theorem immediateWord_eq_or (imm : Word) (rs1 : Register) (funct3 : BitVec 3) (rd : Register)
    (opcode : BitVec 7) :
    immediateWord (imm.setWidth 12) rs1 funct3 rd opcode =
      (imm &&& 0xfff) <<< 20 ||| rs1.index.setWidth 32 <<< 15 ||| funct3.setWidth 32 <<< 12 |||
        rd.index.setWidth 32 <<< 7 ||| opcode.setWidth 32 := by
  have masked : imm &&& 0xfff = (imm.setWidth 12).setWidth 32 := and_mask imm 0 12 (by decide)
  rw [masked]
  ext i
  simp [immediateWord]
  grind

theorem upperWord_eq_or (upper : Word) (rd : Register) (opcode : BitVec 7) :
    upperWord (upper.setWidth 20) rd opcode =
      (upper &&& 0xfffff) <<< 12 ||| rd.index.setWidth 32 <<< 7 ||| opcode.setWidth 32 := by
  have masked : upper &&& 0xfffff = (upper.setWidth 20).setWidth 32 :=
    and_mask upper 0 20 (by decide)
  rw [masked]
  ext i
  simp [upperWord]
  grind

theorem jumpWord_eq_or (offset : Word) (rd : Register) :
    jumpWord (offset.setWidth 21) rd =
      (offset >>> 20 &&& 1) <<< 31 ||| (offset >>> 1 &&& 0x3ff) <<< 21 |||
        (offset >>> 11 &&& 1) <<< 20 ||| (offset >>> 12 &&& 0xff) <<< 12 |||
        rd.index.setWidth 32 <<< 7 ||| 0b1101111 := by
  have sign : offset >>> 20 &&& 1 = (offset.extractLsb' 20 1).setWidth 32 :=
    and_mask offset 20 1 (by decide)
  have low : offset >>> 1 &&& 0x3ff = (offset.extractLsb' 1 10).setWidth 32 :=
    and_mask offset 1 10 (by decide)
  have middle : offset >>> 11 &&& 1 = (offset.extractLsb' 11 1).setWidth 32 :=
    and_mask offset 11 1 (by decide)
  have high : offset >>> 12 &&& 0xff = (offset.extractLsb' 12 8).setWidth 32 :=
    and_mask offset 12 8 (by decide)
  have opcode : (0b1101111 : Word) = (0b1101111 : BitVec 7).setWidth 32 := rfl
  rw [sign, low, middle, high, opcode, jumpWord]
  simp only [BitVec.extractLsb'_setWidth_of_le (by decide : 20 + 1 ≤ 21),
    BitVec.extractLsb'_setWidth_of_le (by decide : 1 + 10 ≤ 21),
    BitVec.extractLsb'_setWidth_of_le (by decide : 11 + 1 ≤ 21),
    BitVec.extractLsb'_setWidth_of_le (by decide : 12 + 8 ≤ 21)]
  generalize offset.extractLsb' 20 1 = sign
  generalize offset.extractLsb' 1 10 = low
  generalize offset.extractLsb' 11 1 = middle
  generalize offset.extractLsb' 12 8 = high
  generalize (0b1101111 : BitVec 7) = opcode
  ext i
  simp
  grind

theorem imm_decode (word : Word) :
    (decode word).imm = (decode word).opcode.format.immediateOf word := rfl

theorem setWidth_bits_ofBits (bits : BitVec 7) : (Opcode.ofBits bits).bits.setWidth 7 = bits := by
  rw [Opcode.bits_ofBits]
  bv_omega

theorem opcode_of_jump (jumps : (decode word).opcode.format = .jump) :
    word.extractLsb' 0 7 = 0b1101111 := by
  have jal : Opcode.ofBits (word.extractLsb' 0 7) = .jal := by
    cases opcode : Opcode.ofBits (word.extractLsb' 0 7) <;>
      simp [decode, opcode, Opcode.format] at jumps
    rfl
  rw [← setWidth_bits_ofBits (word.extractLsb' 0 7), jal]
  rfl

/-- Encoding a decoded word gives the word back. -/
theorem encode_decode (word : Word) : (decode word).encode = word := by
  have opcode : (decode word).opcode.bits.setWidth 7 = word.extractLsb' 0 7 :=
    setWidth_bits_ofBits _
  have funct3 : (decode word).funct3.bits = word.extractLsb' 12 3 := Funct3.bits_ofBits _
  cases format : (decode word).opcode.format with
  | immediate =>
      have imm : (decode word).imm.setWidth 12 = word.extractLsb' 20 12 := by
        rw [imm_decode, format]
        exact setWidth_signExtend (by decide) _
      rw [encode_of_immediate format, imm, funct3, opcode]
      exact immediateWord_fields word
  | upper =>
      have upper : ((decode word).imm >>> 12).setWidth 20 = word.extractLsb' 12 20 := by
        have zeros : (0 : BitVec 12).toNat = 0 := rfl
        rw [imm_decode, format]
        apply BitVec.eq_of_toNat_eq
        rw [BitVec.toNat_setWidth, BitVec.toNat_ushiftRight, Format.immediateOf, toNat_append,
          zeros, Nat.shiftRight_eq_div_pow]
        omega
      rw [encode_of_upper format, upper, opcode]
      exact upperWord_fields word
  | jump =>
      have offset : (decode word).imm.setWidth 21 = Format.jumpOffset word := by
        rw [imm_decode, format]
        exact setWidth_signExtend (by decide) _
      rw [encode_of_jump format, offset]
      exact jumpWord_fields (opcode_of_jump format)
  | register =>
      have funct7 : (decode word).funct7.setWidth 7 = word.extractLsb' 25 7 := by
        have read : (decode word).funct7 = (word.extractLsb' 25 7).setWidth 8 := rfl
        rw [read]
        bv_omega
      rw [encode_of_register format, funct7, funct3, opcode]
      exact registerWord_fields word

/-- The opcodes of the formats with an immediate are told apart by seven bits. -/
theorem ofBits_bits {major : Opcode} (immediate : major.format ≠ .register) :
    Opcode.ofBits (major.bits.setWidth 7) = major := by
  cases major with
  | op => contradiction
  | unsupported bits => contradiction
  | _ => rfl

theorem decode_immediateWord {major : Opcode} (format : major.format = .immediate) (imm : BitVec 12)
    (rs1 : Register) (funct3 : BitVec 3) (rd : Register) :
    let i := decode (immediateWord imm rs1 funct3 rd (major.bits.setWidth 7))
    i.opcode = major ∧ i.rd = rd ∧ i.funct3.bits = funct3 ∧ i.rs1 = rs1 ∧
      i.imm = imm.signExtend 32 := by
  have shape := immediateWord_eq_registerWord imm rs1 funct3 rd (major.bits.setWidth 7)
  have opcode : Opcode.ofBits (major.bits.setWidth 7) = major := ofBits_bits (by simp [format])
  rw [shape, decode_registerWord]
  refine ⟨opcode, rfl, Funct3.bits_ofBits funct3, rfl, ?_⟩
  simp only [opcode, format, Format.immediateOf, ← shape, immediate_immediateWord]

theorem decode_upperWord {major : Opcode} (format : major.format = .upper) (upper : BitVec 20)
    (rd : Register) :
    let i := decode (upperWord upper rd (major.bits.setWidth 7))
    i.opcode = major ∧ i.rd = rd ∧ i.imm = upper.setWidth 32 * 4096 := by
  have shape := upperWord_eq_registerWord upper rd (major.bits.setWidth 7)
  have opcode : Opcode.ofBits (major.bits.setWidth 7) = major := ofBits_bits (by simp [format])
  have shifted : upper ++ (0 : BitVec 12) = upper.setWidth 32 * 4096 := by
    have zeros : (0 : BitVec 12).toNat = 0 := rfl
    have unit : (4096 : Word).toNat = 4096 := rfl
    have bound := upper.isLt
    apply BitVec.eq_of_toNat_eq
    rw [toNat_append, BitVec.toNat_mul, BitVec.toNat_setWidth, zeros, unit]
    omega
  rw [shape, decode_registerWord]
  refine ⟨opcode, rfl, ?_⟩
  simp only [opcode, format, Format.immediateOf, ← shape, upper_upperWord]
  exact shifted

theorem decode_jumpWord (offset : BitVec 21) (rd : Register) (even : offset.toNat % 2 = 0) :
    let i := decode (jumpWord offset rd)
    i.opcode = .jal ∧ i.rd = rd ∧ i.imm = offset.signExtend 32 := by
  have shape := (jumpWord_eq_upperWord offset rd).trans (upperWord_eq_registerWord _ rd _)
  have whole : Format.jumpOffset (jumpWord offset rd) = offset := by
    apply BitVec.eq_of_toNat_eq
    rw [jumpOffset_jumpWord]
    omega
  have opcode : Opcode.ofBits 0b1101111 = .jal := rfl
  rw [shape, decode_registerWord]
  refine ⟨opcode, rfl, ?_⟩
  simp only [opcode, Opcode.format, Format.immediateOf, ← shape, whole]

theorem fields_decode_eq_or (word : Word) :
    (decode word).funct7.setWidth 32 <<< 25 ||| (decode word).rs2.index.setWidth 32 <<< 20 |||
      (decode word).rs1.index.setWidth 32 <<< 15 ||| (decode word).funct3.bits.setWidth 32 <<< 12 |||
      (decode word).rd.index.setWidth 32 <<< 7 ||| (decode word).opcode.bits.setWidth 32 = word := by
  have funct7 : (decode word).funct7.setWidth 32 = (word.extractLsb' 25 7).setWidth 32 :=
    BitVec.setWidth_setWidth (by decide)
  have opcode : (decode word).opcode.bits.setWidth 32 = (word.extractLsb' 0 7).setWidth 32 := by
    have bits : (decode word).opcode.bits = (word.extractLsb' 0 7).setWidth 8 :=
      Opcode.bits_ofBits _
    rw [bits]
    exact BitVec.setWidth_setWidth (by decide)
  have funct3 : (decode word).funct3.bits = word.extractLsb' 12 3 := Funct3.bits_ofBits _
  have whole := registerWord_fields word
  rw [registerWord_eq_or] at whole
  rw [funct7, opcode, funct3]
  exact whole

/-- Decoding loses nothing of a word, encoding loses nothing of the fields, and a word is made of
its fields by shifting them to their places. -/
theorem decode_encode_inverse :
    (∀ word,
      (decode word).raw = word ∧
      (decode word).funct7.setWidth 32 <<< 25 ||| (decode word).rs2.index.setWidth 32 <<< 20 |||
        (decode word).rs1.index.setWidth 32 <<< 15 ||| (decode word).funct3.bits.setWidth 32 <<< 12 |||
        (decode word).rd.index.setWidth 32 <<< 7 ||| (decode word).opcode.bits.setWidth 32 = word ∧
      (decode word).encode = word ∧
      ((decode word).opcode = .op ∨ (∃ bits, (decode word).opcode = .unsupported bits) →
        (decode word).imm = 0)) ∧
    (∀ major, major = .opImm ∨ major = .jalr → ∀ (imm : Word) (rs1 : Register) (funct3 : BitVec 3)
      (rd : Register), -2048 ≤ imm.toInt → imm.toInt ≤ 2047 →
      let i := decode (immediateWord (imm.setWidth 12) rs1 funct3 rd (major.bits.setWidth 7))
      i.opcode = major ∧ i.rd = rd ∧ i.funct3.bits = funct3 ∧ i.rs1 = rs1 ∧ i.imm = imm) ∧
    (∀ major, major = .lui ∨ major = .auipc → ∀ (upper : BitVec 20) (rd : Register),
      let i := decode (upperWord upper rd (major.bits.setWidth 7))
      i.opcode = major ∧ i.rd = rd ∧ i.imm = upper.setWidth 32 * 4096) ∧
    (∀ (offset : Word) (rd : Register),
      -2 ^ 20 ≤ offset.toInt → offset.toInt ≤ 2 ^ 20 - 2 → offset.toInt % 2 = 0 →
      let i := decode (jumpWord (offset.setWidth 21) rd)
      i.opcode = .jal ∧ i.rd = rd ∧ i.imm = offset) ∧
    (∀ (funct7 : BitVec 7) (rs2 rs1 : Register) (funct3 : BitVec 3) (rd : Register)
      (opcode : BitVec 7),
      let i := decode (registerWord funct7 rs2 rs1 funct3 rd opcode)
      i.opcode = .ofBits opcode ∧ i.rd = rd ∧ i.funct3.bits = funct3 ∧ i.rs1 = rs1 ∧ i.rs2 = rs2 ∧
        i.funct7 = funct7.setWidth 8) ∧
    (∀ (funct7 : BitVec 7) (rs2 rs1 : Register) (funct3 : BitVec 3) (rd : Register)
      (opcode : BitVec 7) (imm : Word),
      registerWord funct7 rs2 rs1 funct3 rd opcode =
        funct7.setWidth 32 <<< 25 ||| rs2.index.setWidth 32 <<< 20 |||
          rs1.index.setWidth 32 <<< 15 ||| funct3.setWidth 32 <<< 12 |||
          rd.index.setWidth 32 <<< 7 ||| opcode.setWidth 32 ∧
      immediateWord (imm.setWidth 12) rs1 funct3 rd opcode =
        (imm &&& 0xfff) <<< 20 ||| rs1.index.setWidth 32 <<< 15 ||| funct3.setWidth 32 <<< 12 |||
          rd.index.setWidth 32 <<< 7 ||| opcode.setWidth 32 ∧
      upperWord (imm.setWidth 20) rd opcode =
        (imm &&& 0xfffff) <<< 12 ||| rd.index.setWidth 32 <<< 7 ||| opcode.setWidth 32 ∧
      jumpWord (imm.setWidth 21) rd =
        (imm >>> 20 &&& 1) <<< 31 ||| (imm >>> 1 &&& 0x3ff) <<< 21 ||| (imm >>> 11 &&& 1) <<< 20 |||
          (imm >>> 12 &&& 0xff) <<< 12 ||| rd.index.setWidth 32 <<< 7 ||| 0b1101111) := by
  refine ⟨fun word => ⟨rfl, fields_decode_eq_or word, encode_decode word, fun plain => ?_⟩,
    fun major known imm rs1 funct3 rd lower upper => ?_, fun major known upper rd => ?_,
    fun offset rd lower upper even => ?_, fun funct7 rs2 rs1 funct3 rd opcode => ?_,
    fun funct7 rs2 rs1 funct3 rd opcode imm => ⟨registerWord_eq_or funct7 rs2 rs1 funct3 rd opcode,
      immediateWord_eq_or imm rs1 funct3 rd opcode, upperWord_eq_or imm rd opcode,
      jumpWord_eq_or imm rd⟩⟩
  · rcases plain with opcode | ⟨bits, opcode⟩
    all_goals
      rw [imm_decode, opcode]
      rfl
  · have format : major.format = .immediate := by rcases known with rfl | rfl <;> rfl
    have kept : (imm.setWidth 12).signExtend 32 = imm :=
      signExtend_setWidth (by decide) lower (Int.lt_add_one_of_le upper)
    have decoded := decode_immediateWord format (imm.setWidth 12) rs1 funct3 rd
    rwa [kept] at decoded
  · have format : major.format = .upper := by rcases known with rfl | rfl <;> rfl
    exact decode_upperWord format upper rd
  · have kept : (offset.setWidth 21).signExtend 32 = offset :=
      signExtend_setWidth (by decide) lower (by omega)
    have lowest : (offset.setWidth 21).toNat % 2 = 0 := by
      rw [BitVec.toInt_eq_toNat_cond] at even
      rw [BitVec.toNat_setWidth]
      split at even <;> omega
    have decoded := decode_jumpWord (offset.setWidth 21) rd lowest
    rwa [kept] at decoded
  · rw [decode_registerWord]
    exact ⟨rfl, rfl, Funct3.bits_ofBits funct3, rfl, rfl, rfl⟩

theorem decode_encode_inverse_backward_jump :
    (decode (jumpWord ((-2 : Word).setWidth 21) (.ofNat 7))).imm = -2 ∧
      (decode (immediateWord ((-2048 : Word).setWidth 12) (.ofNat 3) 0 (.ofNat 1)
        (Opcode.jalr.bits.setWidth 7))).imm = -2048 ∧
      (decode (upperWord 0xfffff (.ofNat 1) (Opcode.auipc.bits.setWidth 7))).imm =
        (0xfffff : BitVec 20).setWidth 32 * 4096 ∧
      (decode 0x00532223).imm = 0 := by
  obtain ⟨words, immediates, uppers, jumps, -⟩ := decode_encode_inverse
  refine ⟨?_, ?_, ?_, ?_⟩
  · exact (jumps (-2) (.ofNat 7) (by decide) (by decide) (by decide)).2.2
  · exact (immediates .jalr (.inr rfl) (-2048) (.ofNat 3) 0 (.ofNat 1) (by decide)
      (by decide)).2.2.2.2
  · exact (uppers .auipc (.inr rfl) 0xfffff (.ofNat 1)).2.2
  · exact (words 0x00532223).2.2.2 (.inr ⟨0x23, by decide⟩)

end Instruction

end WordHart
