import Mathlib
import WordHart.Image.Program
import WordHart.Proofs.InstructionTable
import WordHart.Proofs.TextReading
import WordHart.Proofs.Utf8

namespace WordHart

namespace LittleEndian

theorem words?_ofWord_append (word : Word) (data : List UInt8) :
    words? (ofWord word ++ data) = (words? data).map (word :: ·) := by
  have denoted : BitVec.ofNat 32 (value (ofWord word)) = word := by
    have whole : word.toNat % Nat.pow 256 4 = word.toNat := Nat.mod_eq_of_lt word.isLt
    rw [ofWord, value_bytes, whole, BitVec.ofNat_toNat, BitVec.setWidth_eq]
  change (words? data).map (BitVec.ofNat 32 (value (ofWord word)) :: ·) = _
  rw [denoted]

theorem words?_ofWords (words : List Word) : words? (ofWords words) = some words := by
  induction words with
  | nil => rfl
  | cons word words inductionHypothesis =>
      rw [ofWords_cons, words?_ofWord_append, inductionHypothesis, Option.map_some]

theorem mem_ofWords {word : Word} {words : List Word} (member : word ∈ words) {byte : UInt8}
    (stored : byte ∈ ofWord word) : byte ∈ ofWords words :=
  List.mem_flatMap.mpr ⟨word, member, stored⟩

theorem mem_bytes {count index : Nat} (n : Nat) (bound : index < count) :
    UInt8.ofNat (n / 256 ^ index) ∈ bytes count n := by
  induction count generalizing n index with
  | zero => contradiction
  | succ count inductionHypothesis =>
      cases index with
      | zero =>
          rw [Nat.pow_zero, Nat.div_one]
          exact List.mem_cons_self
      | succ index =>
          rw [Nat.pow_succ', ← Nat.div_div_eq_div_mul]
          have later := inductionHypothesis (n / 256) (Nat.lt_of_succ_lt_succ bound)
          exact List.mem_cons_of_mem _ later

theorem exists_mem_ofWord (word : Word) {index : Nat} (bound : index < 4) :
    ∃ byte ∈ ofWord word, byte.toNat = word.field (8 * index) 8 := by
  refine ⟨_, mem_bytes word.toNat bound, ?_⟩
  rw [UInt8.toNat_ofNat', Word.field, Nat.pow_mul]

end LittleEndian

namespace Image

/-- Printing ASCII, or one of space, tab, newline, form feed and carriage return. -/
def IsText (byte : UInt8) : Prop :=
  0x21 ≤ byte.toNat ∧ byte.toNat ≤ 0x7e ∨ byte.toNat ∈ [0x20, 0x09, 0x0a, 0x0c, 0x0d]

instance (byte : UInt8) : Decidable (IsText byte) := inferInstanceAs (Decidable (_ ∨ _))

theorem isTextByte_iff (byte : UInt8) : isTextByte byte = true ↔ IsText byte := by
  simp only [isTextByte, IsText, Bool.or_eq_true, Bool.and_eq_true, decide_eq_true_eq,
    UInt8.le_iff_toNat_le, ← UInt8.toNat_inj, List.mem_cons, List.not_mem_nil]
  simp only [UInt8.reduceToNat]
  tauto

theorem bounds_of_isText {byte : UInt8} (text : IsText byte) :
    0x09 ≤ byte.toNat ∧ byte.toNat ≤ 0x7e := by
  simp only [IsText, List.mem_cons, List.not_mem_nil, or_false] at text
  omega

theorem encode_ofAscii {data : List UInt8} (text : ∀ byte ∈ data, IsText byte) :
    Utf8.encode (String.ofList (ofAscii data)) = data := by
  rw [Utf8.encode, String.toList_ofList]
  induction data with
  | nil => rfl
  | cons byte data inductionHypothesis =>
      have bounds := bounds_of_isText (text byte List.mem_cons_self)
      have scalar : (Char.ofNat byte.toNat).toNat = byte.toNat :=
        Utf8.toNat_ofNat_of_isValidChar (.inl (by omega))
      have single : String.utf8EncodeChar (Char.ofNat byte.toNat) = [byte] := by
        rw [Utf8.utf8EncodeChar_one (by omega), scalar, UInt8.ofNat_toNat]
      have later := inductionHypothesis fun byte member => text byte (List.mem_cons_of_mem _ member)
      calc (ofAscii (byte :: data)).flatMap String.utf8EncodeChar
        _ = String.utf8EncodeChar (Char.ofNat byte.toNat) ++
            (ofAscii data).flatMap String.utf8EncodeChar := rfl
        _ = byte :: data := by rw [single, later, List.singleton_append]

theorem flatten_sublist_intercalate {α : Type} (separator : List α) (pieces : List (List α)) :
    pieces.flatten.Sublist (separator.intercalate pieces) := by
  induction pieces with
  | nil => exact List.nil_sublist _
  | cons piece pieces inductionHypothesis =>
      cases pieces with
      | nil => simp
      | cons next pieces =>
          rw [List.intercalate_cons_cons, List.flatten_cons]
          exact (List.sublist_append_left piece separator).append inductionHypothesis

theorem TokensOf.flatten_sublist {code : List Char} {tokens : List (List Char)}
    (tokensOf : TokensOf code tokens) : tokens.flatten.Sublist code := by
  induction tokensOf with
  | none => exact List.nil_sublist _
  | next _ _ _ _ _ inductionHypothesis =>
      rw [List.flatten_cons]
      exact (List.sublist_append_right _ _).append inductionHypothesis

/-- The tokens of a text are parts of it that do not overlap. -/
theorem Denotes.exists_tokens {text : List Char} {words : List Word}
    (denotes : Denotes text words) :
    ∃ tokens : List (List Char),
      List.Forall₂ Spells tokens words ∧ tokens.flatten.Sublist text := by
  obtain ⟨lines, found, linesOf, tokensOf, spelled⟩ := denotes
  refine ⟨found.flatten, spelled, ?_⟩
  have parted : found.flatten.flatten.Sublist lines.flatten := by
    clear linesOf spelled
    induction tokensOf with
    | nil => exact List.nil_sublist _
    | cons read _ inductionHypothesis =>
        obtain ⟨kept, codeOf, tokensOf⟩ := read
        rw [List.flatten_cons, List.flatten_append, List.flatten_cons]
        exact (tokensOf.flatten_sublist.trans codeOf.front.sublist).append inductionHypothesis
  rw [linesOf.joined]
  exact parted.trans (flatten_sublist_intercalate ['\n'] lines)

theorem Unmarked.length_le {token rest : List Char} (unmarked : Unmarked token rest) :
    rest.length ≤ token.length := by
  cases unmarked with
  | lower | upper => exact Nat.le_add_right _ 2
  | plain => exact Nat.le_refl _

theorem Spells.lt_pow {token : List Char} {word : Word} (spells : Spells token word) :
    word.toNat < 16 ^ token.length := by
  obtain ⟨rest, values, unmarked, spelled, -, -, number⟩ := spells
  have fewer : values.length ≤ token.length :=
    calc values.length
      _ = (rest.filter (· ≠ '_')).length := spelled.length_eq.symm
      _ ≤ rest.length := List.length_filter_le _ _
      _ ≤ token.length := unmarked.length_le
  calc word.toNat
    _ = Nat.ofDigits 16 values.reverse := number
    _ < 16 ^ values.length := ofDigits_lt spelled
    _ ≤ 16 ^ token.length := Nat.pow_le_pow_right (by decide) fewer

theorem length_flatten_of_spells {tokens : List (List Char)} {words : List Word} {width : Nat}
    (spelled : List.Forall₂ Spells tokens words) (large : ∀ word ∈ words, 16 ^ width ≤ word.toNat) :
    (width + 1) * words.length ≤ tokens.flatten.length := by
  induction spelled with
  | nil => exact Nat.zero_le _
  | @cons token word tokens words spells _ inductionHypothesis =>
      have wide : width < token.length := by
        have bound := (large word List.mem_cons_self).trans_lt spells.lt_pow
        exact (Nat.pow_lt_pow_iff_right (by decide)).mp bound
      have later := inductionHypothesis fun word member =>
        large word (List.mem_cons_of_mem _ member)
      rw [List.flatten_cons, List.length_append, List.length_cons, Nat.mul_succ]
      omega

theorem exists_not_isText {word : Word}
    (coded : word = 0 ∨ (Instruction.decode word).opcode = .opImm ∨
      (Instruction.decode word).opcode = .auipc) :
    ∃ byte ∈ LittleEndian.ofWord word, ¬ IsText byte := by
  obtain ⟨byte, member, found⟩ := LittleEndian.exists_mem_ofWord word (Nat.zero_lt_succ 3)
  have lowest : byte.toNat = word.toNat / 2 ^ 0 % 2 ^ 8 := found
  have field {opcode : Opcode} (selected : (Instruction.decode word).opcode = opcode) :
      word.toNat / 2 ^ 0 % 2 ^ 7 = opcode.bits.toNat := by
    rw [← Word.field, ← Word.toNat_extractLsb']
    exact Opcode.toNat_of_ofBits selected
  refine ⟨byte, member, fun text => ?_⟩
  simp only [IsText, List.mem_cons, List.not_mem_nil, or_false] at text
  -- The lowest byte is the opcode and one bit more, so there are two values for each opcode.
  rcases coded with rfl | immediate | upper
  · have zero : (0 : Word).toNat = 0 := rfl
    omega
  · have opcode : word.toNat / 2 ^ 0 % 2 ^ 7 = 0b0010011 := field immediate
    omega
  · have opcode : word.toNat / 2 ^ 0 % 2 ^ 7 = 0b0010111 := field upper
    omega

theorem large_of_isText {word : Word} (text : ∀ byte ∈ LittleEndian.ofWord word, IsText byte) :
    16 ^ 6 ≤ word.toNat := by
  obtain ⟨byte, member, highest⟩ := LittleEndian.exists_mem_ofWord word (Nat.lt_succ_self 3)
  have bounds := bounds_of_isText (text byte member)
  simp only [Word.field] at highest
  omega

/-- A text whose bytes are those of some words denotes none of them. -/
theorem not_denotes_of_isText {words : List Word} (nonempty : words ≠ [])
    (text : ∀ byte ∈ LittleEndian.ofWords words, IsText byte) :
    ¬ Denotes (ofAscii (LittleEndian.ofWords words)) words := by
  intro denotes
  obtain ⟨tokens, spelled, parted⟩ := denotes.exists_tokens
  have large (word : Word) (member : word ∈ words) : 16 ^ 6 ≤ word.toNat :=
    large_of_isText fun byte stored => text byte (LittleEndian.mem_ofWords member stored)
  -- Tokens do not overlap, and there are four characters to a word where each needs seven.
  have crowded : 7 * words.length ≤ 4 * words.length :=
    calc 7 * words.length
      _ ≤ tokens.flatten.length := length_flatten_of_spells spelled large
      _ ≤ (ofAscii (LittleEndian.ofWords words)).length := parted.length_le
      _ = 4 * words.length := by rw [ofAscii, List.length_map, LittleEndian.length_ofWords]
  have some := List.length_pos_of_ne_nil nonempty
  omega

theorem parse_of_isText {data : List UInt8} (text : ∀ byte ∈ data, IsText byte) :
    parse data = parseChars (ofAscii data) :=
  if_pos (List.all_eq_true.mpr fun byte member => (isTextByte_iff byte).mpr (text byte member))

theorem parse_of_not_isText {data : List UInt8} (other : ∃ byte ∈ data, ¬ IsText byte) :
    parse data = parseBinary data := by
  obtain ⟨byte, member, other⟩ := other
  refine if_neg fun all => other ?_
  exact (isTextByte_iff byte).mp (List.all_eq_true.mp all byte member)

theorem parseBinary_ofWords (words : List Word) :
    parseBinary (LittleEndian.ofWords words) = .ok words := by
  rw [parseBinary, LittleEndian.words?_ofWords]

/-- A memory is read back from its image exactly where some byte of the image is no text byte. -/
theorem parse_reads_back_unless_text (memory : Memory) (nonempty : memory.words ≠ []) :
    (parse memory.bytes = .ok memory.words ↔ ∃ byte ∈ memory.bytes, ¬ IsText byte) ∧
    (∀ word ∈ memory.words,
      word = 0 ∨ (Instruction.decode word).opcode = .opImm ∨
        (Instruction.decode word).opcode = .auipc →
      parse memory.bytes = .ok memory.words) ∧
    ((∀ byte ∈ memory.bytes, IsText byte) →
      ∃ text, Utf8.decode memory.bytes = .ok text ∧ parse memory.bytes = parseText text ∧
        parseText text ≠ .ok memory.words) := by
  have faithful (other : ∃ byte ∈ memory.bytes, ¬ IsText byte) :
      parse memory.bytes = .ok memory.words :=
    (parse_of_not_isText other).trans (parseBinary_ofWords memory.words)
  have mistaken (text : ∀ byte ∈ memory.bytes, IsText byte) :
      parseChars (ofAscii memory.bytes) ≠ .ok memory.words :=
    fun read => not_denotes_of_isText nonempty text (parseChars_eq_ok_iff.mp read)
  refine ⟨⟨fun read => ?_, faithful⟩, fun word member coded => faithful ?_, fun text => ?_⟩
  · by_contra unmarked
    have text (byte : UInt8) (member : byte ∈ memory.bytes) : IsText byte :=
      by_contra fun other => unmarked ⟨byte, member, other⟩
    exact mistaken text ((parse_of_isText text).symm.trans read)
  · obtain ⟨byte, stored, other⟩ := exists_not_isText coded
    exact ⟨byte, LittleEndian.mem_ofWords member stored, other⟩
  · have characters : parseText (String.ofList (ofAscii memory.bytes)) =
        parseChars (ofAscii memory.bytes) := by rw [parseText, String.toList_ofList]
    refine ⟨String.ofList (ofAscii memory.bytes), ?_, ?_, ?_⟩
    · exact Utf8.decode_eq_ok_iff.mpr (encode_ofAscii text).symm
    · rw [parse_of_isText text, characters]
    · rw [characters]
      exact mistaken text

theorem parse_reads_back_unless_text_digits :
    let digits : Memory := ⟨#[0x20203331]⟩
    let program : Memory := ⟨#[0x20203331, 0x00100093]⟩
    parse digits.bytes ≠ .ok digits.words ∧ parse digits.bytes = .ok [0x13] ∧
      parse program.bytes = .ok program.words := by
  intro digits program
  refine ⟨?_, by rfl, ?_⟩
  · obtain ⟨text, -, read, differs⟩ :=
      (parse_reads_back_unless_text digits (by decide)).2.2 (by decide +kernel)
    rw [read]
    exact differs
  · have stored : 0x00100093 ∈ program.words := List.mem_cons_of_mem _ List.mem_cons_self
    exact (parse_reads_back_unless_text program (by decide)).2.1 0x00100093 stored (.inr (.inl rfl))

end Image

end WordHart
