import Mathlib
import WordHart.CommandLine.Report
import WordHart.Proofs.TextReading

namespace WordHart

/-- The same error where so many more lines stand in front of the text. -/
def ImageError.later (lines : Nat) : ImageError → ImageError
  | .invalidWord line token => .invalidWord (line + lines) token
  | .invalidDigits line fault => .invalidDigits (line + lines) fault
  | error => error

namespace Image

theorem lines_append_newline (front back : List Char) :
    lines (front ++ '\n' :: back) = lines front ++ lines back :=
  List.splitOn_append_cons_self front back

theorem length_lines (text : List Char) : (lines text).length = 1 + text.count '\n' := by
  unfold lines
  induction text with
  | nil => rfl
  | cons c text inductionHypothesis =>
      rw [List.splitOn_cons_eq_if_modifyHead, List.count_cons]
      split
      · rw [List.length_cons, inductionHypothesis, Nat.add_assoc]
      · rw [List.length_modifyHead, inductionHypothesis, Nat.add_zero]

/-- The tokens behind a newline are those that the text there has alone, on later lines. -/
theorem numberedTokens_append_newline (front back : List Char) :
    numberedTokens (front ++ '\n' :: back) =
      numberedTokens front ++
        (numberedTokens back).map (Prod.map (· + (1 + front.count '\n')) id) := by
  rw [numberedTokens, lines_append_newline, List.zipIdx_append, List.flatMap_append,
    length_lines, Nat.add_comm 1, ← List.map_snd_add_zipIdx_eq_zipIdx, List.flatMap_map]
  congr 1
  rw [numberedTokens, List.map_flatMap]
  congr 1
  apply funext
  rintro ⟨line, number⟩
  rw [List.map_map]
  rfl

theorem parseToken_later (lines line : Nat) (token : List Char) :
    parseToken (line + lines) token = (parseToken line token).mapError (.later lines) := by
  unfold parseToken
  dsimp only
  split
  · rfl
  · split <;> rfl

theorem mapM_mapError {ε ζ α β : Type} (f : α → Except ε β) (rename : ε → ζ) (list : List α) :
    list.mapM (fun a => (f a).mapError rename) = (list.mapM f).mapError rename := by
  induction list with
  | nil => rfl
  | cons a list inductionHypothesis =>
      rw [List.mapM_cons, List.mapM_cons, inductionHypothesis]
      cases f a with
      | error reason => rfl
      | ok b => cases list.mapM f <;> rfl

theorem mapM_parseToken_later (lines : Nat) (numbered : List (Nat × List Char)) :
    (numbered.map (Prod.map (· + lines) id)).mapM (fun (line, token) => parseToken line token) =
      (numbered.mapM fun (line, token) => parseToken line token).mapError (.later lines) := by
  rw [← mapM_mapError, List.mapM_map]
  congr 1
  apply funext
  rintro ⟨line, token⟩
  exact parseToken_later lines line token

theorem parseChars_append_newline (front back : List Char) :
    parseChars (front ++ '\n' :: back) = do
      let first ← parseChars front
      let second ← (parseChars back).mapError (.later (1 + front.count '\n'))
      return first ++ second := by
  rw [parseChars, numberedTokens_append_newline, List.mapM_append, mapM_parseToken_later]
  rfl

theorem parseText_append_newline (first second : String) :
    parseText (first ++ "\n" ++ second) = do
      let front ← parseText first
      let back ← (parseText second).mapError (.later (1 + first.toList.count '\n'))
      return front ++ back := by
  have newline : "\n".toList = ['\n'] := rfl
  rw [parseText, String.toList_append, String.toList_append, newline, List.append_assoc,
    List.singleton_append, parseChars_append_newline]
  rfl

variable {text : String} {texts : List String} {reason : ImageError}

theorem later_zero (error : ImageError) : error.later 0 = error := by
  cases error <;> rfl

theorem later_later (error : ImageError) (near far : Nat) :
    (error.later near).later far = error.later (far + near) := by
  cases error <;> simp only [ImageError.later, Nat.add_assoc, Nat.add_comm far]

theorem parseText_intercalate_cons (more : texts ≠ []) :
    parseText ("\n".intercalate (text :: texts)) = do
      let front ← parseText text
      let back ← (parseText ("\n".intercalate texts)).mapError
        (.later (1 + text.toList.count '\n'))
      return front ++ back := by
  rw [String.intercalate_cons_of_ne_nil more, parseText_append_newline]

theorem parseText_intercalate_of_words {found : List (List Word)}
    (read : List.Forall₂ (fun text words => parseText text = .ok words) texts found) :
    parseText ("\n".intercalate texts) = .ok found.flatten := by
  induction read with
  | nil => rfl
  | @cons text words texts found own later inductionHypothesis =>
      by_cases last : texts = []
      · subst last
        cases later
        rw [String.intercalate_singleton, own, List.flatten_singleton]
      · rw [parseText_intercalate_cons last, own, inductionHypothesis]
        rfl

theorem parseText_intercalate_of_error {front back : List String}
    (read : ∀ earlier ∈ front, ∃ words, parseText earlier = .ok words)
    (failed : parseText text = .error reason) :
    parseText ("\n".intercalate (front ++ text :: back)) =
      .error (reason.later (front.map fun earlier => 1 + earlier.toList.count '\n').sum) := by
  induction front with
  | nil =>
      rw [List.map_nil, List.sum_nil, later_zero, List.nil_append]
      by_cases last : back = []
      · rw [last, String.intercalate_singleton, failed]
      · rw [parseText_intercalate_cons last, failed]
        rfl
  | cons first front inductionHypothesis =>
      obtain ⟨⟨words, own⟩, others⟩ := List.forall_mem_cons.mp read
      rw [List.cons_append, parseText_intercalate_cons (by simp), own, inductionHypothesis others,
        List.map_cons, List.sum_cons, ← later_later]
      rfl

theorem words_or_first_error (texts : List String) :
    (∃ found, List.Forall₂ (fun text own => parseText text = .ok own) texts found) ∨
    ∃ front text back reason, texts = front ++ text :: back ∧
      (∀ earlier ∈ front, ∃ own, parseText earlier = .ok own) ∧
      parseText text = .error reason := by
  cases each : texts.mapM parseText with
  | ok found => exact .inl ⟨found, mapM_eq_ok_iff.mp each⟩
  | error reason =>
      obtain ⟨front, text, back, parted, read, failed⟩ := mapM_eq_error_iff.mp each
      exact .inr ⟨front, text, back, reason, parted, read, failed⟩

theorem parseText_intercalate_eq_ok_iff {words : List Word} :
    parseText ("\n".intercalate texts) = .ok words ↔
      ∃ found, List.Forall₂ (fun text own => parseText text = .ok own) texts found ∧
        words = found.flatten := by
  refine ⟨fun joined => ?_, ?_⟩
  · rcases words_or_first_error texts with
      ⟨found, each⟩ | ⟨front, text, back, reason, rfl, read, failed⟩
    · rw [parseText_intercalate_of_words each] at joined
      exact ⟨found, each, (Except.ok.inj joined).symm⟩
    · rw [parseText_intercalate_of_error read failed] at joined
      cases joined
  · rintro ⟨found, each, rfl⟩
    exact parseText_intercalate_of_words each

theorem parseText_intercalate_eq_error_iff {error : ImageError} :
    parseText ("\n".intercalate texts) = .error error ↔
      ∃ front text back reason, texts = front ++ text :: back ∧
        (∀ earlier ∈ front, ∃ own, parseText earlier = .ok own) ∧
        parseText text = .error reason ∧
        error = reason.later (front.map fun earlier => 1 + earlier.toList.count '\n').sum := by
  refine ⟨fun joined => ?_, ?_⟩
  · rcases words_or_first_error texts with
      ⟨found, each⟩ | ⟨front, text, back, reason, rfl, read, failed⟩
    · rw [parseText_intercalate_of_words each] at joined
      cases joined
    · rw [parseText_intercalate_of_error read failed] at joined
      exact ⟨front, text, back, reason, rfl, read, failed, (Except.error.inj joined).symm⟩
  · rintro ⟨front, text, back, reason, rfl, read, failed, rfl⟩
    exact parseText_intercalate_of_error read failed

/-- A text is read line by line: of two that a newline joins, the first is read as it is alone and
the second as it is alone but for its line numbers, and so are the inline words of the command
line. -/
theorem joined_texts_read_in_turn :
    (∀ first second : String,
      (∀ front back, parseText first = .ok front → parseText second = .ok back →
        parseText (first ++ "\n" ++ second) = .ok (front ++ back)) ∧
      (∀ error, parseText first = .error error →
        parseText (first ++ "\n" ++ second) = .error error) ∧
      (∀ front error, parseText first = .ok front → parseText second = .error error →
        parseText (first ++ "\n" ++ second) =
          .error (error.later (1 + first.toList.count '\n')))) ∧
    (∀ read texts,
      (∀ words, (CommandLine.Source.inline texts).program read = .ok words ↔
        ∃ found, List.Forall₂ (fun text own => parseText text = .ok own) texts found ∧
          words = found.flatten) ∧
      (∀ error, (CommandLine.Source.inline texts).program read = .error error ↔
        ∃ front text back reason, texts = front ++ text :: back ∧
          (∀ earlier ∈ front, ∃ own, parseText earlier = .ok own) ∧
          parseText text = .error reason ∧
          error = reason.later (front.map fun earlier => 1 + earlier.toList.count '\n').sum)) := by
  refine ⟨fun first second => ⟨?_, ?_, ?_⟩, fun read texts => ⟨?_, ?_⟩⟩
  · intro front back own later
    rw [parseText_append_newline, own, later]
    rfl
  · intro error failed
    rw [parseText_append_newline, failed]
    rfl
  · intro front error own failed
    rw [parseText_append_newline, own, failed]
    rfl
  · exact fun words => parseText_intercalate_eq_ok_iff
  · exact fun error => parseText_intercalate_eq_error_iff

theorem joined_texts_read_in_turn_unread_comment :
    parseText ("13 // 0xzz\r" ++ "\n" ++ "\n0xzz") =
      .error (.invalidDigits 3 (.notDigit 'z' 6)) ∧
    (CommandLine.Source.inline ["13 # one", "0xff,1\n2\r", "0x"]).program
      (fun _ => .error .notFound) = .error (.invalidWord 4 "0x") := by
  obtain ⟨joined, inline⟩ := joined_texts_read_in_turn
  have own : parseText "13 // 0xzz\r" = .ok [0x13] := by rfl
  have failed : parseText "\n0xzz" = .error (.invalidDigits 2 (.notDigit 'z' 6)) := by rfl
  refine ⟨(joined _ _).2.2 [0x13] _ own failed, (inline _ _).2 _ |>.mpr ?_⟩
  refine ⟨["13 # one", "0xff,1\n2\r"], "0x", [], .invalidWord 1 "0x", rfl, ?_, by rfl, rfl⟩
  rw [List.forall_mem_cons, List.forall_mem_singleton]
  exact ⟨⟨[0x13], by rfl⟩, [0xff, 1, 2], by rfl⟩

end Image

end WordHart
