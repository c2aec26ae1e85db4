import Mathlib
import WordHart.Proofs.Numerals
import WordHart.Proofs.TextGrammar

namespace WordHart.Image

variable {digits token : List Char} {values : List Nat} {word : Word}

theorem isDigit_of_between {low high c : Char} {offset : Nat} (between : low ≤ c ∧ c ≤ high)
    (table : ∀ n, low.toNat ≤ n → n ≤ high.toNat → IsDigit (.ofNat n) (n - low.toNat + offset)) :
    IsDigit c (c.toNat - low.toNat + offset) := by
  have found := table c.toNat between.1 between.2
  rwa [Char.ofNat_toNat] at found

theorem isDigit_of_hexDigit? {c : Char} {value : Nat}
    (read : Numeral.hexDigit? c = some value) : IsDigit c value := by
  unfold Numeral.hexDigit? at read
  split at read
  case isTrue between =>
    have found : IsDigit c (c.toNat - '0'.toNat + 0) := by
      refine isDigit_of_between between fun n low high => ?_
      change 48 ≤ n at low
      change n ≤ 57 at high
      interval_cases n <;> exact .inl rfl
    cases read
    exact found
  case isFalse =>
    split at read
    case isTrue between =>
      cases read
      refine isDigit_of_between between fun n low high => ?_
      change 97 ≤ n at low
      change n ≤ 102 at high
      interval_cases n <;> exact .inl rfl
    case isFalse =>
      split at read
      case isTrue between =>
        cases read
        refine isDigit_of_between between fun n low high => ?_
        change 65 ≤ n at low
        change n ≤ 70 at high
        interval_cases n <;> exact .inr rfl
      case isFalse => cases read

theorem lt_of_isDigit {c : Char} {value : Nat} (digit : IsDigit c value) : value < 16 := by
  rcases digit with found | found <;> exact (List.getElem?_eq_some_iff.mp found).1

theorem hexDigit?_of_isDigit {c : Char} {value : Nat} (digit : IsDigit c value) :
    Numeral.hexDigit? c = some value := by
  have small := lt_of_isDigit digit
  rcases digit with found | found <;> interval_cases value <;> cases found <;> rfl

theorem utf8Size_of_isDigit {c : Char} {value : Nat} (digit : IsDigit c value) :
    c.utf8Size = 1 := by
  have small := lt_of_isDigit digit
  rcases digit with found | found <;> interval_cases value <;> cases found <;> rfl

theorem readDigits_eq_ok_iff {position total n : Nat} :
    readDigits position total digits = .ok n ↔
      ∃ values, List.Forall₂ IsDigit digits values ∧
        n = total * 16 ^ values.length + Nat.ofDigits 16 values.reverse := by
  induction digits generalizing position total with
  | nil =>
      constructor
      · intro read
        cases read
        exact ⟨[], .nil, by simp⟩
      · intro ⟨values, spelled, number⟩
        cases spelled
        rw [number]
        simp [readDigits]
  | cons c digits inductionHypothesis =>
      rw [readDigits]
      constructor
      · intro read
        cases found : Numeral.hexDigit? c with
        | none => simp [found] at read
        | some value =>
            simp only [found] at read
            obtain ⟨values, spelled, number⟩ := inductionHypothesis.mp read
            refine ⟨value :: values, .cons (isDigit_of_hexDigit? found) spelled, ?_⟩
            rw [number, Numeral.ofDigits_reverse_cons, List.length_cons]
            ring
      · intro ⟨values, spelled, number⟩
        cases spelled with
        | @cons _ value _ values digit spelled =>
            simp only [hexDigit?_of_isDigit digit]
            refine inductionHypothesis.mpr ⟨values, spelled, ?_⟩
            rw [number, Numeral.ofDigits_reverse_cons, List.length_cons]
            ring

theorem readDigits_zeros (position count : Nat) (digits : List Char) :
    readDigits position 0 (List.replicate count '0' ++ digits) =
      readDigits (position + count) 0 digits := by
  induction count generalizing position with
  | zero => rfl
  | succ count inductionHypothesis =>
      have shifted := inductionHypothesis (position + 1)
      rw [Nat.add_right_comm] at shifted
      exact shifted

theorem byteLength_append (front back : List Char) :
    byteLength (front ++ back) = byteLength front + byteLength back := by
  induction front with
  | nil => simp [byteLength]
  | cons c front inductionHypothesis =>
      simp only [List.cons_append, byteLength, inductionHypothesis, Nat.add_assoc]

theorem byteLength_zeros (count : Nat) : byteLength (List.replicate count '0') = count := by
  induction count with
  | zero => rfl
  | succ count inductionHypothesis =>
      have size : '0'.utf8Size = 1 := rfl
      rw [List.replicate_succ, byteLength, inductionHypothesis, size, Nat.add_comm]

theorem byteLength_of_digits (spelled : List.Forall₂ IsDigit digits values) :
    byteLength digits = values.length := by
  induction spelled with
  | nil => rfl
  | cons digit _ inductionHypothesis =>
      rw [byteLength, utf8Size_of_isDigit digit, inductionHypothesis, List.length_cons,
        Nat.add_comm]

theorem readWord_eq_ok_iff :
    readWord digits = .ok word ↔
      byteLength digits = 8 ∧ ∃ n, readDigits 0 0 digits = .ok n ∧ word = BitVec.ofNat 32 n := by
  unfold readWord
  by_cases eight : byteLength digits = 8
  · have even : ¬ byteLength digits % 2 = 1 := by omega
    rw [if_neg even, if_neg (not_not_intro eight)]
    cases readDigits 0 0 digits with
    | error fault => simp
    | ok n => simp [eight, eq_comm]
  · have refused : ¬ (byteLength digits = 8 ∧
        ∃ n, readDigits 0 0 digits = .ok n ∧ word = BitVec.ofNat 32 n) := fun read => eight read.1
    rw [if_pos eight, iff_false_right refused]
    split <;> exact nofun

/-- Filling digits up adds as many bytes as there are characters missing. -/
theorem byteLength_leftpad (digits : List Char) :
    byteLength (digits.leftpad 8 '0') = 8 - digits.length + byteLength digits := by
  rw [List.leftpad, byteLength_append, byteLength_zeros]

theorem readDigits_leftpad (digits : List Char) :
    readDigits 0 0 (digits.leftpad 8 '0') = readDigits (8 - digits.length) 0 digits := by
  rw [List.leftpad, readDigits_zeros, Nat.zero_add]

theorem readWord_padded (short : byteLength digits ≤ 8) :
    readWord (digits.leftpad 8 '0') = .ok word ↔
      ∃ values, List.Forall₂ IsDigit digits values ∧
        word = BitVec.ofNat 32 (Nat.ofDigits 16 values.reverse) := by
  rw [readWord_eq_ok_iff, byteLength_leftpad, readDigits_leftpad]
  simp only [readDigits_eq_ok_iff, Nat.zero_mul, Nat.zero_add]
  constructor
  · intro ⟨_, _, ⟨values, spelled, number⟩, read⟩
    exact ⟨values, spelled, number ▸ read⟩
  · intro ⟨values, spelled, read⟩
    have bytes := byteLength_of_digits spelled
    have count := spelled.length_eq
    exact ⟨by omega, _, ⟨values, spelled, rfl⟩, read⟩

theorem unmarked_iff {rest : List Char} : Unmarked token rest ↔ dropMarker token = rest := by
  constructor
  · intro unmarked
    cases unmarked with
    | lower => rfl
    | upper => rfl
    | plain unmarked =>
        rw [dropMarker]
        · exact fun rest => (unmarked rest).1
        · exact fun rest => (unmarked rest).2
  · rintro rfl
    unfold dropMarker
    split
    case h_1 rest => exact .lower rest
    case h_2 rest => exact .upper rest
    case h_3 lower upper => exact .plain fun rest => ⟨lower rest, upper rest⟩

theorem ofDigits_lt (spelled : List.Forall₂ IsDigit digits values) :
    Nat.ofDigits 16 values.reverse < 16 ^ values.length := by
  have small : ∀ value ∈ values, value < 16 := by
    induction spelled with
    | nil => exact nofun
    | cons digit _ inductionHypothesis =>
        intro value member
        rcases List.mem_cons.mp member with rfl | member
        · exact lt_of_isDigit digit
        · exact inductionHypothesis value member
  rw [← List.length_reverse]
  refine Nat.ofDigits_lt_base_pow_length (by decide) fun value member => ?_
  exact small value (List.mem_reverse.mp member)

theorem eq_ofNat_iff {n : Nat} (small : n < 2 ^ 32) :
    word = BitVec.ofNat 32 n ↔ word.toNat = n := by
  constructor
  · rintro rfl
    rw [BitVec.toNat_ofNat, Nat.mod_eq_of_lt small]
  · rintro rfl
    rw [BitVec.ofNat_toNat, BitVec.setWidth_eq]

theorem spells_iff :
    Spells token word ↔ ∃ values, List.Forall₂ IsDigit (digitsOf token) values ∧
      1 ≤ values.length ∧ values.length ≤ 8 ∧
      word = BitVec.ofNat 32 (Nat.ofDigits 16 values.reverse) := by
  have fits {values : List Nat} (spelled : List.Forall₂ IsDigit (digitsOf token) values)
      (short : values.length ≤ 8) : Nat.ofDigits 16 values.reverse < 2 ^ 32 :=
    calc Nat.ofDigits 16 values.reverse
      _ < 16 ^ values.length := ofDigits_lt spelled
      _ ≤ 16 ^ 8 := Nat.pow_le_pow_right (by decide) short
      _ = 2 ^ 32 := by decide
  constructor
  · intro ⟨rest, values, unmarked, spelled, nonempty, short, number⟩
    obtain rfl := unmarked_iff.mp unmarked
    exact ⟨values, spelled, nonempty, short, (eq_ofNat_iff (fits spelled short)).mpr number⟩
  · intro ⟨values, spelled, nonempty, short, number⟩
    exact ⟨dropMarker token, values, unmarked_iff.mpr rfl, spelled, nonempty, short,
      (eq_ofNat_iff (fits spelled short)).mp number⟩

theorem parseToken_eq_ok_iff {line : Nat} :
    parseToken line token = .ok word ↔ Spells token word := by
  rw [spells_iff, parseToken]
  by_cases refused : (digitsOf token).isEmpty || 8 < byteLength (digitsOf token)
  · rw [if_pos refused]
    constructor
    · exact nofun
    · intro ⟨values, spelled, nonempty, short, _⟩
      have bytes := byteLength_of_digits spelled
      have count := spelled.length_eq
      simp only [Bool.or_eq_true, List.isEmpty_iff_length_eq_zero, decide_eq_true_eq] at refused
      omega
  · rw [if_neg refused]
    simp only [Bool.or_eq_true, List.isEmpty_iff_length_eq_zero, decide_eq_true_eq] at refused
    constructor
    · intro parsed
      cases found : readWord ((digitsOf token).leftpad 8 '0') with
      | error fault =>
          rw [found] at parsed
          cases parsed
      | ok read =>
          rw [found] at parsed
          cases parsed
          obtain ⟨values, spelled, number⟩ := (readWord_padded (by omega)).mp found
          have bytes := byteLength_of_digits spelled
          have count := spelled.length_eq
          exact ⟨values, spelled, by omega, by omega, number⟩
    · intro ⟨values, spelled, _, _, number⟩
      rw [(readWord_padded (by omega)).mpr ⟨values, spelled, number⟩]

theorem mapM_eq_ok_iff {ε α β : Type} {f : α → Except ε β} {list : List α} {results : List β} :
    list.mapM f = .ok results ↔ List.Forall₂ (fun a b => f a = .ok b) list results := by
  induction list generalizing results with
  | nil =>
      constructor
      · intro done
        cases done
        exact .nil
      · intro each
        cases each
        rfl
  | cons first rest inductionHypothesis =>
      rw [List.mapM_cons]
      constructor
      · intro done
        cases head : f first with
        | error reason =>
            rw [head] at done
            cases done
        | ok result =>
            cases tail : rest.mapM f with
            | error reason =>
                rw [head, tail] at done
                cases done
            | ok others =>
                rw [head, tail] at done
                cases done
                exact .cons head (inductionHypothesis.mp tail)
      · intro each
        cases each with
        | cons head tail =>
            rw [head, inductionHypothesis.mpr tail]
            rfl

theorem mapM_eq_error_of_first {ε α β : Type} {f : α → Except ε β} {front back : List α} {a : α}
    {reason : ε} (succeeded : ∀ b ∈ front, ∃ result, f b = .ok result)
    (failed : f a = .error reason) : (front ++ a :: back).mapM f = .error reason := by
  induction front with
  | nil =>
      rw [List.nil_append, List.mapM_cons, failed]
      rfl
  | cons b front inductionHypothesis =>
      obtain ⟨⟨result, head⟩, tail⟩ := List.forall_mem_cons.mp succeeded
      rw [List.cons_append, List.mapM_cons, head, inductionHypothesis tail]
      rfl

theorem exists_first_of_mapM_eq_error {ε α β : Type} {f : α → Except ε β} {list : List α}
    {reason : ε} (failed : list.mapM f = .error reason) :
    ∃ front a back, list = front ++ a :: back ∧ (∀ b ∈ front, ∃ result, f b = .ok result) ∧
      f a = .error reason := by
  induction list with
  | nil => cases failed
  | cons first rest inductionHypothesis =>
      cases head : f first with
      | error found =>
          rw [List.mapM_cons, head] at failed
          cases failed
          exact ⟨[], first, rest, rfl, nofun, head⟩
      | ok result =>
          cases tail : rest.mapM f with
          | ok others =>
              rw [List.mapM_cons, head, tail] at failed
              cases failed
          | error found =>
              rw [List.mapM_cons, head, tail] at failed
              cases failed
              obtain ⟨front, a, back, rfl, succeeded, failed⟩ := inductionHypothesis tail
              have before := List.forall_mem_cons.mpr ⟨⟨result, head⟩, succeeded⟩
              exact ⟨first :: front, a, back, rfl, before, failed⟩

/-- The error of a list is that of the first of its items that has one. -/
theorem mapM_eq_error_iff {ε α β : Type} {f : α → Except ε β} {list : List α} {reason : ε} :
    list.mapM f = .error reason ↔
      ∃ front a back, list = front ++ a :: back ∧ (∀ b ∈ front, ∃ result, f b = .ok result) ∧
        f a = .error reason := by
  refine ⟨exists_first_of_mapM_eq_error, ?_⟩
  rintro ⟨front, a, back, rfl, succeeded, failed⟩
  exact mapM_eq_error_of_first succeeded failed

theorem tokens_of_numberedTokens (text : List Char) :
    (numberedTokens text).map Prod.snd =
      ((lines text).map fun line => tokens (code line)).flatten := by
  have unnumbered (line : List Char) (number : Nat) :
      ((tokens (code line)).map (number, ·)).map Prod.snd = tokens (code line) := by
    rw [List.map_map]
    exact List.map_id _
  calc (numberedTokens text).map Prod.snd
    _ = ((lines text).zipIdx 1).flatMap fun numbered => tokens (code numbered.1) := by
      rw [numberedTokens, List.map_flatMap]
      exact congrArg (List.flatMap · _) (funext fun numbered => unnumbered numbered.1 numbered.2)
    _ = (((lines text).zipIdx 1).map Prod.fst).flatMap fun line => tokens (code line) :=
      (List.flatMap_map Prod.fst (fun line => tokens (code line)) _).symm
    _ = ((lines text).map fun line => tokens (code line)).flatten := by
      rw [List.zipIdx_map_fst, List.flatMap_def]

theorem parseChars_eq_ok_iff {text : List Char} {words : List Word} :
    parseChars text = .ok words ↔ Denotes text words := by
  have spelled : parseChars text = .ok words ↔
      List.Forall₂ Spells ((lines text).map fun line => tokens (code line)).flatten words := by
    rw [parseChars, mapM_eq_ok_iff, ← tokens_of_numberedTokens, List.forall₂_map_left_iff]
    simp only [parseToken_eq_ok_iff]
  have found (pieces : List (List Char)) (tokensOf : List (List (List Char))) :
      List.Forall₂ (fun line ts => ∃ kept, CodeOf line kept ∧ TokensOf kept ts) pieces tokensOf ↔
        pieces.map (fun line => tokens (code line)) = tokensOf := by
    simp only [← code_eq_iff, ← tokens_eq_iff, exists_eq_left']
    exact List.forall₂_map_left_iff.symm.trans (by rw [List.forall₂_eq_eq_eq])
  rw [spelled, Denotes]
  simp only [← lines_eq_iff, found]
  constructor
  · intro words
    exact ⟨_, _, rfl, rfl, words⟩
  · rintro ⟨_, _, rfl, rfl, words⟩
    exact words

end WordHart.Image
