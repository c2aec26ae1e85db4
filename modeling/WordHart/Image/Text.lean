import WordHart.Image.Error
import WordHart.Text.Blank
import WordHart.Word

namespace WordHart.Image

def lines (text : List Char) : List (List Char) := text.splitOn '\n'

/-- A line without its first comment and what follows it. -/
def code : List Char → List Char
  | [] => []
  | '#' :: _ => []
  | '/' :: '/' :: _ => []
  | c :: rest => c :: code rest

def isSeparator (c : Char) : Bool := isBlank c || c = ','

theorem isSeparator_iff {c : Char} : isSeparator c = true ↔ c.toNat ∈ whiteSpace ∨ c = ',' := by
  rw [isSeparator, Bool.or_eq_true, isBlank_iff, decide_eq_true_eq]

/-- The maximal stretches of a line between separators. -/
def tokens (line : List Char) : List (List Char) :=
  (line.splitOnP isSeparator).filter fun token => !token.isEmpty

/-- All tokens of a text in reading order, each with the number of its line. -/
def numberedTokens (text : List Char) : List (Nat × List Char) :=
  ((lines text).zipIdx 1).flatMap fun (line, number) => (tokens (code line)).map (number, ·)

def dropMarker : List Char → List Char
  | '0' :: 'x' :: rest => rest
  | '0' :: 'X' :: rest => rest
  | token => token

/-- The digits of a token: what is left of it without the marker and the underscores. -/
def digitsOf (token : List Char) : List Char := (dropMarker token).filter (· ≠ '_')

/-- The number of bytes that characters take up in UTF-8. -/
def byteLength : List Char → Nat
  | [] => 0
  | c :: rest => c.utf8Size + byteLength rest

/-- Read hexadecimal digits from a position on, given the value of those before it. -/
def readDigits (position total : Nat) : List Char → Except DigitsFault Nat
  | [] => .ok total
  | c :: rest =>
      match Numeral.hexDigit? c with
      | some digit => readDigits (position + 1) (16 * total + digit) rest
      | none => .error (.notDigit c position)

def readWord (digits : List Char) : Except DigitsFault Word :=
  if byteLength digits % 2 = 1 then .error .oddLength
  else if byteLength digits ≠ 8 then .error .wrongLength
  else BitVec.ofNat 32 <$> readDigits 0 0 digits

/-- The word that a token denotes. Short tokens are filled up with zeros on the left. -/
def parseToken (line : Nat) (token : List Char) : Except ImageError Word :=
  let digits := digitsOf token
  if digits.isEmpty || 8 < byteLength digits then .error (.invalidWord line (String.ofList token))
  else
    match readWord (digits.leftpad 8 '0') with
    | .ok word => .ok word
    | .error fault => .error (.invalidDigits line fault)

def parseChars (text : List Char) : Except ImageError (List Word) :=
  (numberedTokens text).mapM fun (line, token) => parseToken line token

def parseText (text : String) : Except ImageError (List Word) := parseChars text.toList

end WordHart.Image
