import Mathlib
import WordHart.Proofs.ImageDetection
import WordHart.Proofs.Stores

namespace WordHart

namespace LittleEndian

variable {data : List UInt8} {words : List Word}

/-- The bytes of a word are its bits by eights, from the lowest on. -/
theorem ofWord_eq_extractLsb' (word : Word) :
    ofWord word = [.ofBitVec (word.extractLsb' 0 8), .ofBitVec (word.extractLsb' 8 8),
      .ofBitVec (word.extractLsb' 16 8), .ofBitVec (word.extractLsb' 24 8)] := by
  have lane (start : Nat) :
      UInt8.ofBitVec (word.extractLsb' start 8) = UInt8.ofNat (word.toNat / 2 ^ start) := by
    apply UInt8.toNat_inj.mp
    rw [UInt8.toNat_ofNat', ← Nat.shiftRight_eq_div_pow]
    exact BitVec.extractLsb'_toNat start 8 word
  simp only [lane, ofWord, bytes, Nat.div_div_eq_div_mul, Nat.reducePow, Nat.reduceMul, Nat.div_one]

theorem ofWord_ofNat_value (four : data.length = 4) :
    ofWord (BitVec.ofNat 32 (value data)) = data := by
  have bounded : value data < 2 ^ 32 := by
    have below := value_lt data
    rwa [four] at below
  rw [ofWord, BitVec.toNat_ofNat, Nat.mod_eq_of_lt bounded, ← four, bytes_value]

/-- Bytes are read as the words whose bytes they are, unless some of them are left over. -/
theorem words?_cases (data : List UInt8) :
    (∃ words, words? data = some words ∧ data = ofWords words) ∨
      words? data = none ∧ data.length % 4 ≠ 0 := by
  induction data using words?.induct with
  | case1 => exact .inl ⟨[], rfl, rfl⟩
  | case2 a b c d rest inductionHypothesis =>
      have whole : ofWord (BitVec.ofNat 32 (value [a, b, c, d])) = [a, b, c, d] :=
        ofWord_ofNat_value rfl
      rcases inductionHypothesis with ⟨words, found, written⟩ | ⟨absent, leftOver⟩
      · refine .inl ⟨_, by rw [words?, found, Option.map_some], ?_⟩
        rw [ofWords_cons, whole, ← written]
        rfl
      · refine .inr ⟨by rw [words?, absent, Option.map_none], ?_⟩
        simp only [List.length_cons]
        omega
  | case3 data empty short =>
      refine .inr ⟨by rw [words?] <;> assumption, ?_⟩
      rcases data with _ | ⟨a, _ | ⟨b, _ | ⟨c, _ | ⟨d, rest⟩⟩⟩⟩
      · exact absurd rfl empty
      · simp
      · simp
      · simp
      · exact absurd rfl (short a b c d rest)

theorem words?_eq_some_iff : words? data = some words ↔ data = ofWords words := by
  refine ⟨fun read => ?_, fun written => by rw [written, words?_ofWords]⟩
  rcases words?_cases data with ⟨found, again, written⟩ | ⟨absent, -⟩
  · rw [again] at read
    cases read
    exact written
  · rw [absent] at read
    cases read

theorem words?_eq_none_iff : words? data = none ↔ data.length % 4 ≠ 0 := by
  rcases words?_cases data with ⟨words, found, rfl⟩ | ⟨absent, leftOver⟩
  · refine iff_of_false (by rw [found]; exact Option.some_ne_none words) (not_not_intro ?_)
    rw [length_ofWords, Nat.mul_mod_right]
  · exact iff_of_true absent leftOver

theorem ofWords_append (front back : List Word) :
    ofWords (front ++ back) = ofWords front ++ ofWords back := List.flatMap_append

theorem length_ofWord_add (word : Word) (count : Nat) :
    (ofWord word).length + 4 * count = 4 * (count + 1) := by
  rw [length_ofWord]
  omega

theorem ofWords_take (words : List Word) (count : Nat) :
    ofWords (words.take count) = (ofWords words).take (4 * count) := by
  induction words generalizing count with
  | nil => simp
  | cons word words inductionHypothesis =>
      cases count with
      | zero => rfl
      | succ count =>
          rw [List.take_succ_cons, ofWords_cons, ofWords_cons, inductionHypothesis,
            ← length_ofWord_add word, List.take_length_add_append]

theorem ofWords_drop (words : List Word) (count : Nat) :
    ofWords (words.drop count) = (ofWords words).drop (4 * count) := by
  induction words generalizing count with
  | nil => simp
  | cons word words inductionHypothesis =>
      cases count with
      | zero => rfl
      | succ count =>
          rw [List.drop_succ_cons, ofWords_cons, inductionHypothesis, ← length_ofWord_add word,
            List.drop_length_add_append]

end LittleEndian

/-- A write replaces the bytes of the words that it reaches. -/
theorem Memory.bytes_write {memory : Memory} {index : Nat} {words : List Word}
    (fits : index + words.length ≤ memory.size) :
    (memory.write index words).2.bytes =
      memory.bytes.take (4 * index) ++ LittleEndian.ofWords words ++
        memory.bytes.drop (4 * (index + words.length)) := by
  rw [bytes, words_write fits, LittleEndian.ofWords_append, LittleEndian.ofWords_append,
    LittleEndian.ofWords_take, LittleEndian.ofWords_drop, bytes]

theorem Machine.bytes_load {machine : Machine} {program : List Word}
    (loaded : (machine.load program).1 = .ok ()) :
    (machine.load program).2.memory.bytes =
      LittleEndian.ofWords program ++ machine.memory.bytes.drop (4 * program.length) := by
  have fits := load_eq_ok_iff.mp loaded
  have inside : 0 + program.length ≤ machine.memory.size := by rwa [Nat.zero_add]
  rw [load_of_fits fits, Memory.bytes_write inside, Nat.zero_add]
  rfl

namespace Image

variable {data : List UInt8} {words : List Word} {error : ImageError}

theorem parseBinary_eq_ok_iff : parseBinary data = .ok words ↔ data = LittleEndian.ofWords words := by
  rw [← LittleEndian.words?_eq_some_iff, parseBinary]
  cases LittleEndian.words? data <;> simp

theorem parseBinary_eq_error_iff :
    parseBinary data = .error error ↔
      error = .truncatedWord data.length ∧ data.length % 4 ≠ 0 := by
  rw [← LittleEndian.words?_eq_none_iff, parseBinary]
  cases LittleEndian.words? data <;> simp [eq_comm]

theorem exists_parseBinary_eq_ok_iff :
    (∃ words, parseBinary data = .ok words) ↔ data.length % 4 = 0 := by
  cases parsed : parseBinary data with
  | ok words =>
      have written := parseBinary_eq_ok_iff.mp parsed
      refine iff_of_true ⟨words, rfl⟩ ?_
      rw [written, LittleEndian.length_ofWords, Nat.mul_mod_right]
  | error error =>
      obtain ⟨-, cut⟩ := parseBinary_eq_error_iff.mp parsed
      exact iff_of_false (by simp) cut

/-- Images of whole words and lists of words correspond to each other, by the bits of each word
taken by eights from the lowest on. Any other image is refused with its length. A program that was
read from an image and loaded is that image again, in front of what memory held behind it. -/
theorem parseBinary_corresponds_to_words (data : List UInt8) :
    (∀ words, parseBinary data = .ok words ↔
      data = words.flatMap fun word =>
        [.ofBitVec (word.extractLsb' 0 8), .ofBitVec (word.extractLsb' 8 8),
          .ofBitVec (word.extractLsb' 16 8), .ofBitVec (word.extractLsb' 24 8)]) ∧
    ((∃ words, parseBinary data = .ok words) ↔ data.length % 4 = 0) ∧
    (∀ error, parseBinary data = .error error ↔
      error = .truncatedWord data.length ∧ data.length % 4 ≠ 0) ∧
    ∀ (machine : Machine) words, parseBinary data = .ok words →
      (machine.load words).1 = .ok () →
      (machine.load words).2.memory.bytes = data ++ machine.memory.bytes.drop data.length := by
  refine ⟨fun words => ?_, exists_parseBinary_eq_ok_iff, fun error => parseBinary_eq_error_iff,
    fun machine words parsed loaded => ?_⟩
  · simp only [← LittleEndian.ofWord_eq_extractLsb']
    exact parseBinary_eq_ok_iff
  · have written := parseBinary_eq_ok_iff.mp parsed
    rw [Machine.bytes_load loaded, ← LittleEndian.length_ofWords, ← written]

/-- No word of the image has the same bytes in both orders, and one word of memory is kept. -/
theorem parseBinary_corresponds_to_words_partly_filled :
    let data : List UInt8 := [0x13, 0x01, 0x50, 0x00, 0xb3, 0x01, 0x31, 0x00]
    let machine := ((Machine.new { memoryWords := 3 }).load [0x11, 0x22, 0x99aabbcc]).2
    let program : List Word := [0x00500113, 0x003101b3]
    parseBinary data = .ok program ∧ (machine.load program).1 = .ok () ∧
      (machine.load program).2.memory.bytes = data ++ [0xcc, 0xbb, 0xaa, 0x99] ∧
      parseBinary (data.take 5) = .error (.truncatedWord 5) := by
  intro data machine program
  have parsed : parseBinary data = .ok program :=
    ((parseBinary_corresponds_to_words data).1 program).mpr (by decide)
  have loaded : (machine.load program).1 = .ok () := by decide
  have kept : machine.memory.bytes.drop data.length = [0xcc, 0xbb, 0xaa, 0x99] := by decide
  obtain ⟨-, -, refused, -⟩ := parseBinary_corresponds_to_words (data.take 5)
  have placed := (parseBinary_corresponds_to_words data).2.2.2 machine program parsed loaded
  rw [kept] at placed
  exact ⟨parsed, loaded, placed, (refused (.truncatedWord 5)).mpr (by decide)⟩

end Image

end WordHart
