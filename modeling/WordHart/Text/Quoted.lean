import WordHart.Text.Concealed
import WordHart.Text.Numeral

namespace WordHart.Quoted

/-- A character inside a literal that the given quote delimits. -/
def escape (quote c : Char) : List Char :=
  if c = '\x00' then ['\\', '0']
  else if c = '\t' then ['\\', 't']
  else if c = '\r' then ['\\', 'r']
  else if c = '\n' then ['\\', 'n']
  else if c = '\\' ∨ c = quote then ['\\', c]
  else if isConcealed c then ['\\', 'u', '\x7b'] ++ Nat.toDigits 16 c.toNat ++ ['\x7d']
  else [c]

def character (c : Char) : String := String.ofList ('\'' :: escape '\'' c ++ ['\''])

def string (text : String) : String :=
  String.ofList ('"' :: text.toList.flatMap (escape '"') ++ ['"'])

end WordHart.Quoted
