import Mathlib
import WordHart.Proofs.ImageDetection
import WordHart.Proofs.TokenPlaces

/-!
Digits are counted three ways: their limit is in bytes, the zeros that fill them
up are characters, and the position of a wrong one is that behind the zeros. As
long as all characters are ASCII the first two agree, and no image that is taken
for text has any other.
-/

namespace WordHart.Image

/-- The bytes that characters take up in UTF-8. -/
def byteSize (chars : List Char) : Nat := (String.ofList chars).utf8ByteSize

/-- What is wrong with a token on a line, given what is left of it behind its marker and without
underscores. -/
inductive Misspells (line : Nat) (token digits : List Char) : ImageError → Prop
  | size (misfit : digits = [] ∨ 8 < byteSize digits) :
      Misspells line token digits (.invalidWord line (String.ofList token))
  | odd (fits : digits ≠ [] ∧ byteSize digits ≤ 8) (foreign : ∃ c ∈ digits, 0x80 ≤ c.toNat)
      (odd : (byteSize digits - digits.length) % 2 = 1) :
      Misspells line token digits (.invalidDigits line .oddLength)
  | even (fits : digits ≠ [] ∧ byteSize digits ≤ 8) (foreign : ∃ c ∈ digits, 0x80 ≤ c.toNat)
      (even : (byteSize digits - digits.length) % 2 = 0) :
      Misspells line token digits (.invalidDigits line .wrongLength)
  /-- All characters are ASCII, and one of them is the first that is no digit. -/
  | digit (fits : digits ≠ [] ∧ byteSize digits ≤ 8) (ascii : ∀ c ∈ digits, c.toNat < 0x80)
      {front back : List Char} {c : Char} (parted : digits = front ++ c :: back)
      (before : ∀ earlier ∈ front, ∃ value, IsDigit earlier value)
      (other : ∀ value, ¬ IsDigit c value) :
      Misspells line token digits
        (.invalidDigits line (.notDigit c (8 - digits.length + front.length)))

/-- A token stands at a place, it is no word, and all tokens before it are words. -/
structure FirstBad (text before token after : List Char) : Prop where
  stands : TokenAt text before token after
  bad : ∀ word, ¬ Spells token word
  earlier : ∀ earlier other rest, TokenAt text earlier other rest →
    earlier.length < before.length → ∃ word, Spells other word

variable {digits token : List Char} {line : Nat}

theorem byteLength_eq_byteSize (chars : List Char) : byteLength chars = byteSize chars := by
  induction chars with
  | nil => rfl
  | cons c chars inductionHypothesis =>
      rw [byteLength, inductionHypothesis, byteSize, byteSize, String.ofList_cons,
        String.utf8ByteSize_append, String.utf8ByteSize_singleton]

theorem utf8Size_eq_one_iff {c : Char} : c.utf8Size = 1 ↔ c.toNat < 0x80 := by
  rw [Char.utf8Size_eq_one_iff]
  exact Nat.lt_succ_iff.symm

theorem length_le_byteLength (chars : List Char) : chars.length ≤ byteLength chars := by
  induction chars with
  | nil => exact Nat.le_refl 0
  | cons c chars inductionHypothesis =>
      have some := c.utf8Size_pos
      rw [List.length_cons, byteLength]
      omega

theorem byteLength_eq_length_iff (chars : List Char) :
    byteLength chars = chars.length ↔ ∀ c ∈ chars, c.toNat < 0x80 := by
  induction chars with
  | nil => simp [byteLength]
  | cons c chars inductionHypothesis =>
      have some := c.utf8Size_pos
      have enough := length_le_byteLength chars
      rw [List.forall_mem_cons, ← inductionHypothesis, ← utf8Size_eq_one_iff, byteLength,
        List.length_cons]
      omega

theorem length_lt_byteLength_iff (chars : List Char) :
    chars.length < byteLength chars ↔ ∃ c ∈ chars, 0x80 ≤ c.toNat := by
  have enough := length_le_byteLength chars
  have ascii := byteLength_eq_length_iff chars
  rw [← not_iff_not, Nat.not_lt]
  push Not
  rw [← ascii]
  omega

theorem hexDigit?_eq_none_iff {c : Char} :
    Numeral.hexDigit? c = none ↔ ∀ value, ¬ IsDigit c value := by
  rw [Option.eq_none_iff_forall_ne_some]
  refine forall_congr' fun value => not_congr ?_
  exact ⟨isDigit_of_hexDigit?, hexDigit?_of_isDigit⟩

theorem readDigits_eq_error_iff {position total : Nat} {fault : DigitsFault} :
    readDigits position total digits = .error fault ↔
      ∃ front c back, digits = front ++ c :: back ∧
        (∀ earlier ∈ front, ∃ value, IsDigit earlier value) ∧ (∀ value, ¬ IsDigit c value) ∧
        fault = .notDigit c (position + front.length) := by
  induction digits generalizing position total with
  | nil => simp [readDigits]
  | cons first digits inductionHypothesis =>
      rw [readDigits]
      cases found : Numeral.hexDigit? first with
      | none =>
          have other := hexDigit?_eq_none_iff.mp found
          refine ⟨fun read => ?_, ?_⟩
          · cases read
            exact ⟨[], first, digits, rfl, List.forall_mem_nil _, other, rfl⟩
          · rintro ⟨front, c, back, parted, before, -, rfl⟩
            cases front with
            | nil =>
                cases parted
                rfl
            | cons head front =>
                cases parted
                obtain ⟨value, digit⟩ := before first List.mem_cons_self
                exact absurd digit (other value)
      | some value =>
          have digit := isDigit_of_hexDigit? found
          refine inductionHypothesis.trans ⟨?_, ?_⟩
          · rintro ⟨front, c, back, rfl, before, other, rfl⟩
            refine ⟨first :: front, c, back, rfl, ?_, other, ?_⟩
            · exact List.forall_mem_cons.mpr ⟨⟨value, digit⟩, before⟩
            · rw [List.length_cons, Nat.add_right_comm, Nat.add_assoc]
          · rintro ⟨front, c, back, parted, before, other, rfl⟩
            cases front with
            | nil =>
                cases parted
                exact absurd digit (other value)
            | cons head front =>
                cases parted
                refine ⟨front, c, back, rfl, (List.forall_mem_cons.mp before).2, other, ?_⟩
                rw [List.length_cons, Nat.add_right_comm, Nat.add_assoc]

theorem readWord_eq_error_iff {fault : DigitsFault} :
    readWord digits = .error fault ↔
      byteLength digits % 2 = 1 ∧ fault = .oddLength ∨
      byteLength digits % 2 = 0 ∧ byteLength digits ≠ 8 ∧ fault = .wrongLength ∨
      byteLength digits = 8 ∧ readDigits 0 0 digits = .error fault := by
  unfold readWord
  by_cases odd : byteLength digits % 2 = 1
  · have other : byteLength digits ≠ 8 := by omega
    simp [odd, other, eq_comm]
  · have even : byteLength digits % 2 = 0 := by omega
    by_cases eight : byteLength digits = 8
    · cases read : readDigits 0 0 digits <;> simp [eight]
    · simp [even, eight, eq_comm]

theorem misspells_iff_readWord {error : ImageError} (some : digits ≠ [])
    (short : byteLength digits ≤ 8) :
    Misspells line token digits error ↔
      ∃ fault, readWord (digits.leftpad 8 '0') = .error fault ∧
        error = .invalidDigits line fault := by
  have size := byteLength_eq_byteSize digits
  have enough := length_le_byteLength digits
  have fits : digits ≠ [] ∧ byteSize digits ≤ 8 := ⟨some, size ▸ short⟩
  simp only [readWord_eq_error_iff, byteLength_leftpad, readDigits_leftpad,
    readDigits_eq_error_iff]
  refine ⟨fun misspells => ?_, ?_⟩
  · cases misspells with
    | size misfit =>
        rcases misfit with nothing | long
        · exact absurd nothing some
        · omega
    | odd _ foreign odd => exact ⟨.oddLength, .inl ⟨by omega, rfl⟩, rfl⟩
    | even _ foreign even =>
        have wide := (length_lt_byteLength_iff digits).mpr foreign
        exact ⟨.wrongLength, .inr (.inl ⟨by omega, by omega, rfl⟩), rfl⟩
    | @digit _ ascii front back c parted before other =>
        have narrow := (byteLength_eq_length_iff digits).mpr ascii
        exact ⟨_, .inr (.inr ⟨by omega, front, c, back, parted, before, other, rfl⟩), rfl⟩
  · rintro ⟨fault, ⟨odd, rfl⟩ | ⟨even, other, rfl⟩ |
      ⟨eight, front, c, back, parted, before, other, rfl⟩, rfl⟩
    · have foreign := (length_lt_byteLength_iff digits).mp (by omega)
      exact .odd fits foreign (by omega)
    · have foreign := (length_lt_byteLength_iff digits).mp (by omega)
      exact .even fits foreign (by omega)
    · have ascii := (byteLength_eq_length_iff digits).mp (by omega)
      exact .digit fits ascii parted before other

theorem parseToken_eq_error_iff {error : ImageError} :
    parseToken line token = .error error ↔ Misspells line token (digitsOf token) error := by
  have size := byteLength_eq_byteSize (digitsOf token)
  by_cases misfit : digitsOf token = [] ∨ 8 < byteLength (digitsOf token)
  · have refused : parseToken line token = .error (.invalidWord line (String.ofList token)) := by
      refine if_pos ?_
      simpa using misfit
    rw [refused]
    refine ⟨fun failed => ?_, fun misspells => ?_⟩
    · cases failed
      exact .size (size ▸ misfit)
    · cases misspells with
      | size => rfl
      | odd fits | even fits | digit fits => exact absurd misfit (by simp [fits.1]; omega)
  · obtain ⟨some, short⟩ := not_or.mp misfit
    have read : parseToken line token =
        (readWord ((digitsOf token).leftpad 8 '0')).mapError (.invalidDigits line) := by
      refine (if_neg ?_).trans ?_
      · simpa using misfit
      · cases readWord ((digitsOf token).leftpad 8 '0') <;> rfl
    rw [read, misspells_iff_readWord some (Nat.le_of_not_lt short)]
    cases readWord ((digitsOf token).leftpad 8 '0') with
    | ok word => simp [Except.mapError]
    | error fault => simp [Except.mapError, eq_comm]

theorem parseChars_eq_error_iff {text : List Char} {error : ImageError} :
    parseChars text = .error error ↔
      ∃ before token after, FirstBad text before token after ∧
        Misspells (1 + before.count '\n') token (digitsOf token) error := by
  simp only [parseChars, mapM_eq_error_iff, ← parseToken_eq_error_iff, parseToken_eq_ok_iff]
  refine ⟨?_, ?_⟩
  · rintro ⟨front, ⟨number, token⟩, back, read, words, failed⟩
    obtain ⟨before, after, stands, rfl⟩ := exists_tokenAt read
    obtain ⟨more, again⟩ := stands.exists_numberedTokens
    rw [read, List.append_cancel_left_eq] at again
    cases again
    refine ⟨before, token, after, ⟨stands, fun word spells => ?_, ?_⟩, failed⟩
    · rw [parseToken_eq_ok_iff.mpr spells] at failed
      cases failed
    · exact stands.forall_earlier_iff.mpr words
  · rintro ⟨before, token, after, first, failed⟩
    obtain ⟨more, read⟩ := first.stands.exists_numberedTokens
    exact ⟨numberedTokens before, _, more, read, first.stands.forall_earlier_iff.mp first.earlier,
      failed⟩

theorem Unmarked.suffix {rest : List Char} (unmarked : Unmarked token rest) : rest <:+ token := by
  cases unmarked with
  | lower | upper => exact List.suffix_append [_, _] rest
  | plain => exact List.suffix_rfl

theorem mem_of_mem_digitsOf {c : Char} (member : c ∈ digitsOf token) : c ∈ token :=
  (unmarked_iff.mpr rfl).suffix.mem (List.mem_of_mem_filter member)

/-- In a text of ASCII characters the only fault of digits is one that is none. -/
theorem exists_notDigit_of_ascii {text : List Char} {fault : DigitsFault}
    (ascii : ∀ c ∈ text, c.toNat < 0x80)
    (failed : parseChars text = .error (.invalidDigits line fault)) :
    ∃ c position, fault = .notDigit c position := by
  obtain ⟨before, token, after, first, misspells⟩ := parseChars_eq_error_iff.mp failed
  have narrow : ¬ ∃ c ∈ digitsOf token, 0x80 ≤ c.toNat := by
    rintro ⟨c, member, wide⟩
    have within : c ∈ text := by
      rw [first.stands.parted]
      exact List.mem_append_left _ (List.mem_append_right _ (mem_of_mem_digitsOf member))
    exact Nat.not_lt_of_le wide (ascii c within)
  generalize found : ImageError.invalidDigits line fault = error at misspells
  cases misspells with
  | size => cases found
  | odd _ foreign | even _ foreign => exact absurd foreign narrow
  | digit =>
      cases found
      exact ⟨_, _, rfl⟩

theorem ascii_of_isText {data : List UInt8} (text : ∀ byte ∈ data, IsText byte) :
    ∀ c ∈ ofAscii data, c.toNat < 0x80 := by
  intro c member
  obtain ⟨byte, stored, rfl⟩ := List.mem_map.mp member
  have bounds := bounds_of_isText (text byte stored)
  rw [Utf8.toNat_ofNat_of_isValidChar (.inl (by omega))]
  omega

theorem exists_notDigit_of_parse {data : List UInt8} {fault : DigitsFault}
    (failed : parse data = .error (.invalidDigits line fault)) :
    ∃ c position, fault = .notDigit c position := by
  by_cases text : ∀ byte ∈ data, IsText byte
  · rw [parse_of_isText text] at failed
    exact exists_notDigit_of_ascii (ascii_of_isText text) failed
  · push Not at text
    rw [parse_of_not_isText text, parseBinary] at failed
    split at failed <;> cases failed

theorem exists_notDigit_of_parseFile {file : Except FileError (List UInt8)} {fault : DigitsFault}
    (failed : parseFile file = .error (.invalidDigits line fault)) :
    ∃ c position, fault = .notDigit c position := by
  cases file with
  | ok data => exact exists_notDigit_of_parse failed
  | error reason => cases failed

/-- A text is refused for its first token that is no word, on its line and with what is wrong about
its digits. The two faults that come from a count of bytes take a character that is not ASCII, so
they come out of no image that is read from bytes. -/
theorem refused_for_first_bad_token :
    (∀ text error, parseText text = .error error ↔
      ∃ before token after rest, FirstBad text.toList before token after ∧ Unmarked token rest ∧
        Misspells (1 + before.count '\n') token (rest.filter (· ≠ '_')) error) ∧
    (∀ data line fault, parse data = .error (.invalidDigits line fault) →
      fault ≠ .oddLength ∧ fault ≠ .wrongLength) ∧
    (∀ file line fault, parseFile file = .error (.invalidDigits line fault) →
      fault ≠ .oddLength ∧ fault ≠ .wrongLength) := by
  refine ⟨fun text error => ?_, fun data line fault failed => ?_, fun file line fault failed => ?_⟩
  · rw [parseText, parseChars_eq_error_iff]
    simp only [unmarked_iff, exists_and_left, exists_eq_left', digitsOf]
  · obtain ⟨c, position, rfl⟩ := exists_notDigit_of_parse failed
    simp
  · obtain ⟨c, position, rfl⟩ := exists_notDigit_of_parseFile failed
    simp

theorem refused_for_first_bad_token_wide_digit :
    (∃ before token after rest, FirstBad "13 // no\n0x€1".toList before token after ∧
      Unmarked token rest ∧ Misspells (1 + before.count '\n') token (rest.filter (· ≠ '_'))
        (.invalidDigits 2 .wrongLength)) ∧
    (parse [0x31, 0x0a, 0x67] = .error (.invalidDigits 2 (.notDigit 'g' 7)) ∧
      DigitsFault.notDigit 'g' 7 ≠ .oddLength ∧ DigitsFault.notDigit 'g' 7 ≠ .wrongLength) := by
  obtain ⟨text, image, file⟩ := refused_for_first_bad_token
  have mistaken : parse [0x31, 0x0a, 0x67] = .error (.invalidDigits 2 (.notDigit 'g' 7)) := by rfl
  exact ⟨(text _ _).mp (by rfl), mistaken, image _ _ _ mistaken⟩

end WordHart.Image
