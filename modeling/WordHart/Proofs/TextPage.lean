import Mathlib
import WordHart.Proofs.TextReading

namespace WordHart.Image

/-- A digit as it is written, with underscores in front of it. -/
structure Digit where
  underscores : Nat
  upper : Bool
  value : Fin 16

inductive Marker where
  | none
  | lower
  | upper

structure Spelling where
  marker : Marker
  digits : List Digit
  trailing : Nat
  nonempty : 1 ≤ digits.length
  short : digits.length ≤ 8

/-- What may stand between the tokens of a line. A carriage return is such a character. -/
abbrev Separator := { c : Char // isSeparator c = true ∧ c ≠ '\n' }

structure Comment where
  slashes : Bool
  remark : List { c : Char // c ≠ '\n' }

structure Line where
  indent : List Separator
  /-- Tokens, each with the separators behind it. -/
  spaced : List (Spelling × Separator × List Separator)
  /-- A token that touches the comment or the end of the line. -/
  last : Option Spelling
  comment : Option Comment

structure Page where
  first : Line
  others : List Line

theorem plain_of_isDigit {c : Char} {value : Nat} (digit : IsDigit c value) :
    isSeparator c = false ∧ c ≠ '#' ∧ c ≠ '/' ∧ c ≠ 'x' ∧ c ≠ 'X' ∧ c ≠ '_' := by
  have small := lt_of_isDigit digit
  rcases digit with found | found <;> interval_cases value <;> cases found <;> decide

namespace Digit

def character (digit : Digit) : Char :=
  (if digit.upper then upperDigits else lowerDigits).getD digit.value '0'

def text (digit : Digit) : List Char := List.replicate digit.underscores '_' ++ [digit.character]

theorem isDigit_character (digit : Digit) : IsDigit digit.character digit.value := by
  obtain ⟨_, upper, value⟩ := digit
  have lowers : value < lowerDigits.length := value.isLt
  have uppers : value < upperDigits.length := value.isLt
  cases upper with
  | false => exact .inl (by simp [character, lowers])
  | true => exact .inr (by simp [character, uppers])

end Digit

namespace Spelling

variable (spelling : Spelling)

/-- What stands behind the marker. -/
def body : List Char :=
  spelling.digits.flatMap Digit.text ++ List.replicate spelling.trailing '_'

def text : List Char :=
  match spelling.marker with
  | .none => spelling.body
  | .lower => '0' :: 'x' :: spelling.body
  | .upper => '0' :: 'X' :: spelling.body

def values : List Nat := spelling.digits.map fun digit => digit.value.val

def word : Word := BitVec.ofNat 32 (Nat.ofDigits 16 spelling.values.reverse)

theorem mem_body {c : Char} (member : c ∈ spelling.body) : c = '_' ∨ ∃ value, IsDigit c value := by
  simp only [body, Digit.text, List.mem_append, List.mem_flatMap, List.mem_replicate,
    List.mem_singleton] at member
  rcases member with ⟨digit, _, underscore | same⟩ | underscore
  · exact .inl underscore.2
  · exact .inr ⟨digit.value, same ▸ digit.isDigit_character⟩
  · exact .inl underscore.2

theorem solid_body {c : Char} (member : c ∈ spelling.body) :
    isSeparator c = false ∧ c ≠ '#' ∧ c ≠ '/' ∧ c ≠ 'x' ∧ c ≠ 'X' := by
  rcases spelling.mem_body member with rfl | ⟨value, digit⟩
  · decide
  · obtain ⟨solid, hash, slash, lower, upper, _⟩ := plain_of_isDigit digit
    exact ⟨solid, hash, slash, lower, upper⟩

theorem solid_text {c : Char} (member : c ∈ spelling.text) :
    isSeparator c = false ∧ c ≠ '#' ∧ c ≠ '/' := by
  have behind (member : c ∈ spelling.body) : isSeparator c = false ∧ c ≠ '#' ∧ c ≠ '/' := by
    obtain ⟨solid, hash, slash, _⟩ := spelling.solid_body member
    exact ⟨solid, hash, slash⟩
  unfold text at member
  split at member
  · exact behind member
  all_goals
    rcases List.mem_cons.mp member with rfl | member
    · decide
    · rcases List.mem_cons.mp member with rfl | member
      · decide
      · exact behind member

theorem filter_text (digits : List Digit) :
    (digits.flatMap Digit.text).filter (· ≠ '_') = digits.map Digit.character := by
  induction digits with
  | nil => rfl
  | cons digit digits inductionHypothesis =>
      have plain := plain_of_isDigit digit.isDigit_character
      have kept : digit.text.filter (· ≠ '_') = [digit.character] := by simp [Digit.text, plain]
      rw [List.flatMap_cons, List.filter_append, kept, inductionHypothesis]
      rfl

theorem unmarked_text : Unmarked spelling.text spelling.body := by
  cases marker : spelling.marker with
  | none =>
      have plain : spelling.text = spelling.body := by rw [text, marker]
      rw [plain]
      refine .plain fun rest => ⟨fun marked => ?_, fun marked => ?_⟩
      · have member : 'x' ∈ spelling.body := by simp [marked]
        simpa using spelling.solid_body member
      · have member : 'X' ∈ spelling.body := by simp [marked]
        simpa using spelling.solid_body member
  | lower =>
      rw [text, marker]
      exact .lower spelling.body
  | upper =>
      rw [text, marker]
      exact .upper spelling.body

theorem digitsOf_text : digitsOf spelling.text = spelling.digits.map Digit.character := by
  rw [digitsOf, unmarked_iff.mp spelling.unmarked_text, body, List.filter_append, filter_text]
  simp

theorem text_ne_nil : spelling.text ≠ [] := by
  intro empty
  have none : spelling.digits.map Digit.character = [] := by
    rw [← digitsOf_text, empty]
    rfl
  have nonempty := spelling.nonempty
  rw [List.map_eq_nil_iff.mp none] at nonempty
  contradiction

theorem spells : Spells spelling.text spelling.word := by
  have spelled : List.Forall₂ IsDigit (spelling.digits.map Digit.character) spelling.values := by
    rw [values, List.forall₂_map_left_iff, List.forall₂_map_right_iff, List.forall₂_same]
    exact fun digit _ => digit.isDigit_character
  have count : spelling.values.length = spelling.digits.length := List.length_map _
  rw [spells_iff, digitsOf_text]
  exact ⟨spelling.values, spelled, count ▸ spelling.nonempty, count ▸ spelling.short, rfl⟩

end Spelling

def Comment.text (comment : Comment) : List Char :=
  (if comment.slashes then ['/', '/'] else ['#']) ++ comment.remark.map Subtype.val

theorem Comment.opensComment_text (comment : Comment) : OpensComment comment.text := by
  unfold text
  cases comment.slashes with
  | false => exact .inl (List.prefix_append ['#'] _)
  | true => exact .inr (List.prefix_append ['/', '/'] _)

theorem Comment.newline_not_mem_text (comment : Comment) : '\n' ∉ comment.text := by
  intro newline
  unfold text at newline
  rcases List.mem_append.mp newline with opening | remark
  · revert opening
    cases comment.slashes <;> decide
  · obtain ⟨c, _, same⟩ := List.mem_map.mp remark
    exact c.property same

/-- Tokens, each with the separators behind it. -/
def spacedText (spaced : List (Spelling × Separator × List Separator)) : List Char :=
  spaced.flatMap fun (spelling, separator, more) =>
    spelling.text ++ separator.val :: more.map Subtype.val

namespace Line

variable (line : Line)

def code : List Char :=
  line.indent.map Subtype.val ++ spacedText line.spaced ++ (line.last.map Spelling.text).getD []

def text : List Char := line.code ++ (line.comment.map Comment.text).getD []

def spellings : List Spelling := line.spaced.map Prod.fst ++ line.last.toList

theorem mem_code {c : Char} (member : c ∈ line.code) :
    (∃ spelling : Spelling, c ∈ spelling.text) ∨ ∃ separator : Separator, separator.val = c := by
  rcases List.mem_append.mp member with front | last
  · rcases List.mem_append.mp front with indent | spaced
    · obtain ⟨separator, _, same⟩ := List.mem_map.mp indent
      exact .inr ⟨separator, same⟩
    · obtain ⟨⟨spelling, separator, more⟩, _, within⟩ := List.mem_flatMap.mp spaced
      rcases List.mem_append.mp within with spelled | behind
      · exact .inl ⟨spelling, spelled⟩
      · rcases List.mem_cons.mp behind with same | further
        · exact .inr ⟨separator, same.symm⟩
        · obtain ⟨separator, _, same⟩ := List.mem_map.mp further
          exact .inr ⟨separator, same⟩
  · cases found : line.last with
    | none => simp [found] at last
    | some spelling => exact .inl ⟨spelling, by simpa [found] using last⟩

theorem plain_code {c : Char} (member : c ∈ line.code) : c ≠ '#' ∧ c ≠ '/' ∧ c ≠ '\n' := by
  rcases line.mem_code member with ⟨spelling, spelled⟩ | ⟨separator, rfl⟩
  · obtain ⟨solid, hash, slash⟩ := spelling.solid_text spelled
    refine ⟨hash, slash, ?_⟩
    rintro rfl
    exact absurd solid (by decide)
  · obtain ⟨c, separates, unbroken⟩ := separator
    refine ⟨?_, ?_, unbroken⟩
    all_goals
      rintro rfl
      exact absurd separates (by decide)

theorem newline_not_mem_text : '\n' ∉ line.text := by
  intro newline
  rcases List.mem_append.mp newline with inCode | inComment
  · exact (line.plain_code inCode).2.2 rfl
  · cases found : line.comment with
    | none => simp [found] at inComment
    | some comment => exact comment.newline_not_mem_text (by simpa [found] using inComment)

theorem codeOf_text : CodeOf line.text line.code := by
  have behind : line.text.drop line.code.length = (line.comment.map Comment.text).getD [] :=
    List.drop_left
  refine ⟨List.prefix_append line.code _, ?_, fun index within opens => ?_⟩
  · rw [behind]
    cases line.comment with
    | none => exact .inl rfl
    | some comment => exact .inr comment.opensComment_text
  · have head : (line.text.drop index).head? = some line.code[index] := by
      rw [List.head?_drop, text, List.getElem?_append_left within, List.getElem?_eq_getElem within]
    obtain ⟨hash, slash, _⟩ := line.plain_code (List.getElem_mem within)
    rcases head_of_opensComment opens with found | found
    · exact hash (Option.some.inj (head.symm.trans found))
    · exact slash (Option.some.inj (head.symm.trans found))

end Line

theorem isSeparator_of_mem (separators : List Separator) :
    ∀ c ∈ separators.map Subtype.val, isSeparator c = true := by
  intro c member
  obtain ⟨separator, _, rfl⟩ := List.mem_map.mp member
  exact separator.property.1

theorem tokensOf_spaced (spaced : List (Spelling × Separator × List Separator))
    (last : Option Spelling) {indent : List Char}
    (separators : ∀ c ∈ indent, isSeparator c = true) :
    TokensOf (indent ++ spacedText spaced ++ (last.map Spelling.text).getD [])
      ((spaced.map Prod.fst ++ last.toList).map Spelling.text) := by
  induction spaced generalizing indent with
  | nil =>
      cases last with
      | none =>
          refine .none fun c member => separators c ?_
          simpa [spacedText] using member
      | some spelling =>
          have token : TokensOf (indent ++ spelling.text ++ []) [spelling.text] :=
            .next separators spelling.text_ne_nil (fun c member => (spelling.solid_text member).1)
              nofun (.none nofun)
          simpa [spacedText] using token
  | cons item spaced inductionHypothesis =>
      obtain ⟨spelling, separator, more⟩ := item
      have between : ∀ c ∈ separator.val :: more.map Subtype.val, isSeparator c = true :=
        isSeparator_of_mem (separator :: more)
      have maximal : ∀ c ∈ (separator.val :: more.map Subtype.val ++ spacedText spaced ++
          (last.map Spelling.text).getD []).head?, isSeparator c = true := by
        rintro c ⟨⟩
        exact separator.property.1
      have token := TokensOf.next separators spelling.text_ne_nil
        (fun c member => (spelling.solid_text member).1) maximal (inductionHypothesis between)
      simpa [spacedText] using token

namespace Page

def lines (page : Page) : List Line := page.first :: page.others

def text (page : Page) : List Char := ['\n'].intercalate (page.lines.map Line.text)

def words (page : Page) : List Word :=
  (page.lines.flatMap Line.spellings).map Spelling.word

theorem denotes (page : Page) : Denotes page.text page.words := by
  refine ⟨page.lines.map Line.text, page.lines.map fun line => line.spellings.map Spelling.text,
    ⟨nofun, rfl, ?_⟩, ?_, ?_⟩
  · intro text member
    obtain ⟨line, _, rfl⟩ := List.mem_map.mp member
    exact line.newline_not_mem_text
  · rw [List.forall₂_map_left_iff, List.forall₂_map_right_iff, List.forall₂_same]
    intro line _
    have indented := isSeparator_of_mem line.indent
    exact ⟨line.code, line.codeOf_text, tokensOf_spaced line.spaced line.last indented⟩
  · have flat : (page.lines.map fun line => line.spellings.map Spelling.text).flatten =
        (page.lines.flatMap Line.spellings).map Spelling.text := by
      rw [List.map_flatMap, List.flatMap_def]
    rw [flat, words, List.forall₂_map_left_iff, List.forall₂_map_right_iff, List.forall₂_same]
    exact fun spelling _ => spelling.spells

end Page

/-- Reading accepts exactly the texts that denote words, every page among them. -/
theorem parseText_reads_grammar :
    (∀ text words, parseText text = .ok words ↔ Denotes text.toList words) ∧
    (∀ page : Page, parseText (String.ofList page.text) = .ok page.words) := by
  refine ⟨fun text words => parseChars_eq_ok_iff, fun page => ?_⟩
  rw [parseText, String.toList_ofList]
  exact parseChars_eq_ok_iff.mpr page.denotes

end WordHart.Image
