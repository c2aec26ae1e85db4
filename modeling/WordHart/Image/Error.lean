import WordHart.File.Error
import WordHart.Text.Quoted

namespace WordHart

/-- Why eight hexadecimal digits could not be read. Positions count from zero. -/
inductive DigitsFault where
  | oddLength
  /-- The digits take up an even number of bytes that is not eight. -/
  | wrongLength
  /-- The character at a position is no hexadecimal digit. -/
  | notDigit (character : Char) (position : Nat)
  deriving DecidableEq

namespace DigitsFault

def text : DigitsFault → String
  | oddLength => "Odd number of digits"
  | wrongLength => "Invalid string length"
  | notDigit character position =>
      "Invalid character " ++ Quoted.character character ++ " at position " ++
        Numeral.decimal position

def recordText : DigitsFault → String
  | oddLength => "OddLength"
  | wrongLength => "InvalidStringLength"
  | notDigit character position =>
      "InvalidHexCharacter \x7b c: " ++ Quoted.character character ++ ", index: " ++
        Numeral.decimal position ++ " \x7d"

end DigitsFault

/-- Why an image has no words. Lines count from one. -/
inductive ImageError where
  | file (error : FileError)
  /-- A binary image is no whole number of words. -/
  | truncatedWord (length : Nat)
  /-- A token of a text image has no digits or too many. -/
  | invalidWord (line : Nat) (token : String)
  /-- A token of a text image has a character that is no digit. -/
  | invalidDigits (line : Nat) (fault : DigitsFault)
  deriving DecidableEq

namespace ImageError

def text : ImageError → String
  | file error => "failed to read program image: " ++ error.text
  | truncatedWord length =>
      "binary image of " ++ Numeral.decimal length ++ " bytes is not a whole number of 32-bit words"
  | invalidWord line token =>
      "line " ++ Numeral.decimal line ++ ": `" ++ token ++ "` is not a 32-bit hex word"
  | invalidDigits line fault => "line " ++ Numeral.decimal line ++ ": " ++ fault.text

def recordText : ImageError → String
  | file error => "Io(" ++ error.recordText ++ ")"
  | truncatedWord length => "TruncatedWord \x7b len: " ++ Numeral.decimal length ++ " \x7d"
  | invalidWord line token =>
      "InvalidWord \x7b line: " ++ Numeral.decimal line ++ ", token: " ++ Quoted.string token ++
        " \x7d"
  | invalidDigits line fault =>
      "InvalidHex \x7b line: " ++ Numeral.decimal line ++ ", source: " ++ fault.recordText ++
        " \x7d"

end ImageError

end WordHart
