import Mathlib
import WordHart.Proofs.TokenPlaces

namespace WordHart.Image

/-- The stretches of a text up to and including each newline, and what follows the last newline if
anything does. -/
def stretches : List Char → List (List Char)
  | [] => []
  | c :: rest =>
      if c = '\n' then [c] :: stretches rest
      else
        match stretches rest with
        | [] => [[c]]
        | stretch :: later => (c :: stretch) :: later

def stripLast (c : Char) (line : List Char) : List Char :=
  if line.getLast? = some c then line.dropLast else line

/-- A stretch without the newline that ends it and without a carriage return in front of that. A
stretch that no newline ends is left as it is. -/
def stripEnd (stretch : List Char) : List Char :=
  if stretch.getLast? = some '\n' then stripLast '\r' stretch.dropLast else stretch

/-- The lines of a text if each is ended by a newline, perhaps behind a carriage return, and the
last one may go without. -/
def endedLines (text : List Char) : List (List Char) := (stretches text).map stripEnd

/-- The tokens of some lines in order, each with the number of its line. -/
def numberTokens (lines : List (List Char)) : List (Nat × List Char) :=
  (lines.zipIdx 1).flatMap fun numbered => (tokens (code numbered.1)).map (numbered.2, ·)

variable {line rest : List Char}

theorem stretches_of_unbroken (nonempty : line ≠ []) (unbroken : '\n' ∉ line) :
    stretches line = [line] := by
  induction line with
  | nil => contradiction
  | cons c line inductionHypothesis =>
      obtain ⟨plain, later⟩ := not_or.mp (mt List.mem_cons.mpr unbroken)
      rw [stretches, if_neg (Ne.symm plain)]
      by_cases last : line = []
      · rw [last, stretches]
      · rw [inductionHypothesis last later]

theorem stretches_append_newline (unbroken : '\n' ∉ line) (rest : List Char) :
    stretches (line ++ '\n' :: rest) = (line ++ ['\n']) :: stretches rest := by
  induction line with
  | nil => rfl
  | cons c line inductionHypothesis =>
      obtain ⟨plain, later⟩ := not_or.mp (mt List.mem_cons.mpr unbroken)
      rw [List.cons_append, stretches, if_neg (Ne.symm plain), inductionHypothesis later]
      rfl

/-- No comment opens across the border to a carriage return, so it is kept or falls into one. -/
theorem code_append_return (line : List Char) :
    code (line ++ ['\r']) = code line ++ ['\r'] ∨ code (line ++ ['\r']) = code line := by
  induction line with
  | nil => exact .inl rfl
  | cons c line inductionHypothesis =>
      by_cases opens : OpensComment (c :: line)
      · have longer := opens.mono (List.prefix_append (c :: line) ['\r'])
        rw [code_of_opensComment opens, code_of_opensComment longer]
        exact .inr rfl
      · have apart : Apart (c :: line) ['\r'] := .inr (by simp [isSeparator_iff, whiteSpace])
        have closed : ¬ OpensComment (c :: (line ++ ['\r'])) := fun across =>
          opens (across.of_apart apart List.suffix_rfl (List.cons_ne_nil c line))
        rw [List.cons_append, code_cons closed, code_cons opens]
        exact inductionHypothesis.imp (congrArg (c :: ·)) (congrArg (c :: ·))

theorem tokens_code_append_return (line : List Char) :
    tokens (code (line ++ ['\r'])) = tokens (code line) := by
  rcases code_append_return line with kept | dropped
  · have separator : isSeparator '\r' = true := rfl
    have nothing : tokens [] = [] := rfl
    rw [kept, tokens_append_separator separator, nothing, List.append_nil]
  · rw [dropped]

theorem tokens_code_stripLast (line : List Char) :
    tokens (code (stripLast '\r' line)) = tokens (code line) := by
  unfold stripLast
  split
  case isTrue ends =>
    obtain ⟨kept, rfl⟩ := List.getLast?_eq_some_iff.mp ends
    rw [List.dropLast_concat, tokens_code_append_return]
  case isFalse => rfl

theorem endedLines_of_unbroken (nonempty : line ≠ []) (unbroken : '\n' ∉ line) :
    endedLines line = [line] := by
  have unended : line.getLast? ≠ some '\n' := fun ends => unbroken (List.mem_of_getLast? ends)
  rw [endedLines, stretches_of_unbroken nonempty unbroken, List.map_singleton, stripEnd,
    if_neg unended]

theorem endedLines_append_newline (unbroken : '\n' ∉ line) (rest : List Char) :
    endedLines (line ++ '\n' :: rest) = stripLast '\r' line :: endedLines rest := by
  rw [endedLines, stretches_append_newline unbroken, List.map_cons, stripEnd,
    List.getLast?_concat, if_pos rfl, List.dropLast_concat, endedLines]

theorem numberTokens_cons (line : List Char) (later : List (List Char)) :
    numberTokens (line :: later) =
      (tokens (code line)).map (1, ·) ++ (numberTokens later).map (Prod.map (· + 1) id) := by
  rw [numberTokens, List.zipIdx_cons, List.flatMap_cons, Nat.add_comm 1,
    ← List.map_snd_add_zipIdx_eq_zipIdx, List.flatMap_map, numberTokens, List.map_flatMap]
  simp only [List.map_map]
  rfl

/-- A carriage return in front of a newline and an empty line at the end hold no token, so it makes
no difference to the tokens and to the numbers of their lines which of the lines are meant. -/
theorem numberedTokens_eq_numberTokens_endedLines (text : List Char) :
    numberedTokens text = numberTokens (endedLines text) := by
  induction length : text.length using Nat.strong_induction_on generalizing text with
  | h n inductionHypothesis =>
      by_cases broken : '\n' ∈ text
      · obtain ⟨line, later, rfl, unbroken⟩ := List.eq_append_cons_of_mem broken
        have shorter : later.length < n := by
          rw [← length]
          simp
          omega
        rw [numberedTokens_append_newline, numberedTokens_of_unbroken unbroken,
          List.count_eq_zero.mpr unbroken, inductionHypothesis _ shorter later rfl,
          endedLines_append_newline unbroken, numberTokens_cons, tokens_code_stripLast]
      · by_cases empty : text = []
        · rw [empty]
          rfl
        · rw [numberedTokens_of_unbroken broken, endedLines_of_unbroken empty broken,
            numberTokens_cons]
          exact (List.append_nil _).symm

example : endedLines "13\r\n\n#\r".toList = [['1', '3'], [], ['#', '\r']] := by decide

end WordHart.Image
