import Mathlib
import WordHart.Image.Text

/-!
What a text image denotes, as relations between a text and its parts: the lines
of a text, the code of a line, the tokens of some code and the word of a token.
Each relation says what its parts are and not how to find them.
-/

namespace WordHart.Image

/-- The lines of a text are what stands between its newlines. -/
structure LinesOf (text : List Char) (lines : List (List Char)) : Prop where
  nonempty : lines ≠ []
  joined : text = ['\n'].intercalate lines
  unbroken : ∀ line ∈ lines, '\n' ∉ line

/-- A comment begins at the front of what is left of a line. -/
def OpensComment (left : List Char) : Prop := ['#'] <+: left ∨ ['/', '/'] <+: left

/-- The code of a line is what stands before its first comment. -/
structure CodeOf (line kept : List Char) : Prop where
  front : kept <+: line
  comment : line.drop kept.length = [] ∨ OpensComment (line.drop kept.length)
  first : ∀ index < kept.length, ¬ OpensComment (line.drop index)

/-- The tokens of some code are its maximal stretches without separators. -/
inductive TokensOf : List Char → List (List Char) → Prop
  | none {code : List Char} (separators : ∀ c ∈ code, isSeparator c = true) : TokensOf code []
  | next {before token rest : List Char} {tokens : List (List Char)}
      (separators : ∀ c ∈ before, isSeparator c = true)
      (nonempty : token ≠ []) (solid : ∀ c ∈ token, isSeparator c = false)
      (maximal : ∀ c ∈ rest.head?, isSeparator c = true) (later : TokensOf rest tokens) :
      TokensOf (before ++ token ++ rest) (token :: tokens)

/-- What is left of a token behind its marker, if it has one. -/
inductive Unmarked : List Char → List Char → Prop
  | lower (rest : List Char) : Unmarked ('0' :: 'x' :: rest) rest
  | upper (rest : List Char) : Unmarked ('0' :: 'X' :: rest) rest
  | plain {token : List Char}
      (unmarked : ∀ rest, token ≠ '0' :: 'x' :: rest ∧ token ≠ '0' :: 'X' :: rest) :
      Unmarked token token

def lowerDigits : List Char :=
  ['0', '1', '2', '3', '4', '5', '6', '7', '8', '9', 'a', 'b', 'c', 'd', 'e', 'f']

def upperDigits : List Char :=
  ['0', '1', '2', '3', '4', '5', '6', '7', '8', '9', 'A', 'B', 'C', 'D', 'E', 'F']

/-- A character is the hexadecimal digit of a value, in either case. -/
def IsDigit (c : Char) (value : Nat) : Prop :=
  lowerDigits[value]? = some c ∨ upperDigits[value]? = some c

/-- A token is a word of one to eight digits, apart from a marker and underscores. -/
def Spells (token : List Char) (word : Word) : Prop :=
  ∃ rest values, Unmarked token rest ∧
    List.Forall₂ IsDigit (rest.filter (· ≠ '_')) values ∧
    1 ≤ values.length ∧ values.length ≤ 8 ∧ word.toNat = Nat.ofDigits 16 values.reverse

/-- A text denotes the words that the tokens of its lines spell, in order. -/
def Denotes (text : List Char) (words : List Word) : Prop :=
  ∃ lines found, LinesOf text lines ∧
    List.Forall₂ (fun line tokens => ∃ kept, CodeOf line kept ∧ TokensOf kept tokens) lines found ∧
    List.Forall₂ Spells found.flatten words

theorem not_mem_of_mem_splitOnP {α : Type} {separates : α → Bool} {list piece : List α}
    (member : piece ∈ list.splitOnP separates) : ∀ a ∈ piece, separates a = false := by
  induction list generalizing piece with
  | nil =>
      rw [List.splitOnP_nil, List.mem_singleton] at member
      subst member
      exact nofun
  | cons first rest inductionHypothesis =>
      rw [List.splitOnP_cons_eq_if_modifyHead] at member
      obtain ⟨head, tail, split⟩ := List.exists_cons_of_ne_nil (List.splitOnP_ne_nil separates rest)
      rw [split] at member inductionHypothesis
      split at member
      case isTrue =>
        rcases List.mem_cons.mp member with rfl | member
        · exact nofun
        · exact inductionHypothesis member
      case isFalse solid =>
        rw [List.modifyHead_cons] at member
        rcases List.mem_cons.mp member with rfl | member
        · have heads := inductionHypothesis List.mem_cons_self
          simpa [solid] using heads
        · exact inductionHypothesis (List.mem_cons_of_mem head member)

theorem lines_eq_iff {text : List Char} {found : List (List Char)} :
    lines text = found ↔ LinesOf text found := by
  constructor
  · rintro rfl
    refine ⟨List.splitOn_ne_nil '\n' text, (List.intercalate_splitOn '\n').symm, ?_⟩
    intro line member newline
    have solid := not_mem_of_mem_splitOnP member '\n' newline
    simp at solid
  · intro ⟨nonempty, joined, unbroken⟩
    rw [lines, joined]
    exact List.splitOn_intercalate '\n' unbroken nonempty

theorem head_of_opensComment {left : List Char} (opens : OpensComment left) :
    left.head? = some '#' ∨ left.head? = some '/' := by
  rcases opens with ⟨rest, rfl⟩ | ⟨rest, rfl⟩
  · exact .inl rfl
  · exact .inr rfl

theorem code_of_opensComment {line : List Char} (opens : OpensComment line) : code line = [] := by
  rcases opens with ⟨rest, rfl⟩ | ⟨rest, rfl⟩
  · rfl
  · rfl

theorem code_cons {c : Char} {rest : List Char} (closed : ¬ OpensComment (c :: rest)) :
    code (c :: rest) = c :: code rest := by
  rw [code]
  · rintro rfl
    exact closed (.inl ⟨rest, rfl⟩)
  · rintro tail rfl rfl
    exact closed (.inr ⟨tail, rfl⟩)

theorem codeOf_code (line : List Char) : CodeOf line (code line) := by
  induction line with
  | nil => exact ⟨List.prefix_rfl, .inl rfl, nofun⟩
  | cons c rest inductionHypothesis =>
      by_cases opens : OpensComment (c :: rest)
      · rw [code_of_opensComment opens]
        exact ⟨List.nil_prefix, .inr opens, nofun⟩
      · rw [code_cons opens]
        refine ⟨(List.prefix_cons_inj c).mpr inductionHypothesis.front,
          inductionHypothesis.comment, fun index within => ?_⟩
        cases index with
        | zero => exact opens
        | succ index => exact inductionHypothesis.first index (Nat.lt_of_succ_lt_succ within)

theorem code_eq_of_codeOf {line kept : List Char} (codeOf : CodeOf line kept) :
    code line = kept := by
  induction kept generalizing line with
  | nil =>
      rcases codeOf.comment with nothing | opens
      · rw [List.length_nil, List.drop_zero] at nothing
        rw [nothing]
        rfl
      · exact code_of_opensComment opens
  | cons c kept inductionHypothesis =>
      obtain ⟨rest, rfl⟩ := codeOf.front
      have closed : ¬ OpensComment (c :: (kept ++ rest)) := codeOf.first 0 (Nat.zero_lt_succ _)
      have later : CodeOf (kept ++ rest) kept := by
        refine ⟨List.prefix_append kept rest, codeOf.comment, fun index within => ?_⟩
        exact codeOf.first (index + 1) (Nat.succ_lt_succ within)
      exact (code_cons closed).trans (congrArg _ (inductionHypothesis later))

theorem code_eq_iff {line kept : List Char} : code line = kept ↔ CodeOf line kept := by
  constructor
  · rintro rfl
    exact codeOf_code line
  · exact code_eq_of_codeOf

theorem tokens_append_separator {c : Char} (separator : isSeparator c = true)
    (before after : List Char) : tokens (before ++ c :: after) = tokens before ++ tokens after := by
  rw [tokens, List.splitOnP_append_cons before after separator, List.filter_append]
  rfl

theorem tokens_of_separators {before : List Char}
    (separators : ∀ c ∈ before, isSeparator c = true) (rest : List Char) :
    tokens (before ++ rest) = tokens rest := by
  induction before with
  | nil => rfl
  | cons c before inductionHypothesis =>
      have separator := separators c List.mem_cons_self
      have nothing : tokens [] = [] := rfl
      have cut := tokens_append_separator separator [] (before ++ rest)
      rw [nothing, List.nil_append, List.nil_append] at cut
      rw [List.cons_append, cut]
      exact inductionHypothesis fun c member => separators c (List.mem_cons_of_mem _ member)

theorem tokens_of_solid {token : List Char} (nonempty : token ≠ [])
    (solid : ∀ c ∈ token, isSeparator c = false) : tokens token = [token] := by
  rw [tokens, List.splitOnP_eq_singleton solid]
  simp [nonempty]

theorem tokens_eq_of_tokensOf {code : List Char} {found : List (List Char)}
    (tokensOf : TokensOf code found) : tokens code = found := by
  induction tokensOf with
  | @none code separators =>
      have cut := tokens_of_separators separators []
      rwa [List.append_nil] at cut
  | @next before token rest found separators nonempty solid maximal _ inductionHypothesis =>
      rw [List.append_assoc, tokens_of_separators separators]
      cases rest with
      | nil =>
          rw [List.append_nil, tokens_of_solid nonempty solid, ← inductionHypothesis]
          rfl
      | cons c rest =>
          have separator : isSeparator c = true := maximal c rfl
          have skipped : tokens (c :: rest) = tokens rest :=
            tokens_append_separator separator [] rest
          rw [tokens_append_separator separator, tokens_of_solid nonempty solid,
            ← inductionHypothesis, skipped]
          rfl

theorem exists_tokensOf (code : List Char) : ∃ found, TokensOf code found := by
  -- What follows the first token is shorter than the code, so the induction is on the length.
  induction length : code.length using Nat.strong_induction_on generalizing code with
  | h n inductionHypothesis =>
      have cut : code.takeWhile isSeparator ++ code.dropWhile isSeparator = code :=
        List.takeWhile_append_dropWhile
      have before : ∀ c ∈ code.takeWhile isSeparator, isSeparator c = true :=
        fun c member => List.mem_takeWhile_imp member
      cases behind : code.dropWhile isSeparator with
      | nil =>
          rw [behind, List.append_nil] at cut
          rw [cut] at before
          exact ⟨[], .none before⟩
      | cons first tail =>
          have begins : isSeparator first = false := by
            have stopped := List.head?_dropWhile_not isSeparator code
            rwa [behind] at stopped
          let token := first :: tail.takeWhile fun c => !isSeparator c
          let rest := tail.dropWhile fun c => !isSeparator c
          have parted : token ++ rest = first :: tail :=
            congrArg (first :: ·) List.takeWhile_append_dropWhile
          have solid : ∀ c ∈ token, isSeparator c = false := by
            intro c member
            rcases List.mem_cons.mp member with rfl | member
            · exact begins
            · simpa using List.mem_takeWhile_imp member
          have maximal : ∀ c ∈ rest.head?, isSeparator c = true := by
            intro c member
            have stopped := List.head?_dropWhile_not (fun c => !isSeparator c) tail
            rw [Option.mem_def] at member
            simpa [rest, member] using stopped
          have whole : code.takeWhile isSeparator ++ token ++ rest = code := by
            rw [List.append_assoc, parted, ← behind, cut]
          have shorter : rest.length < n := by
            rw [← length, ← whole]
            simp [token]
            omega
          obtain ⟨found, later⟩ := inductionHypothesis rest.length shorter rest rfl
          have tokensOf := TokensOf.next before (List.cons_ne_nil _ _) solid maximal later
          rw [whole] at tokensOf
          exact ⟨_, tokensOf⟩

theorem tokens_eq_iff {code : List Char} {found : List (List Char)} :
    tokens code = found ↔ TokensOf code found := by
  constructor
  · rintro rfl
    obtain ⟨found, tokensOf⟩ := exists_tokensOf code
    rwa [tokens_eq_of_tokensOf tokensOf]
  · exact tokens_eq_of_tokensOf

end WordHart.Image
