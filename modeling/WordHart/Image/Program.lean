import WordHart.Image.Text

namespace WordHart.Image

def isTextByte (byte : UInt8) : Bool :=
  (0x21 ≤ byte && byte ≤ 0x7e) || byte = 0x20 || byte = 0x09 || byte = 0x0a || byte = 0x0c ||
    byte = 0x0d

def parseBinary (data : List UInt8) : Except ImageError (List Word) :=
  match LittleEndian.words? data with
  | some words => .ok words
  | none => .error (.truncatedWord data.length)

/-- The characters of a byte string whose bytes are all ASCII. -/
def ofAscii (data : List UInt8) : List Char := data.map fun byte => Char.ofNat byte.toNat

/-- Read an image, as text if all its bytes are those of a text. A binary image of such bytes alone
is read as text, too. -/
def parse (data : List UInt8) : Except ImageError (List Word) :=
  if data.all isTextByte then parseChars (ofAscii data) else parseBinary data

/-- The words of the image in a file, given what came of reading the file. -/
def parseFile : Except FileError (List UInt8) → Except ImageError (List Word)
  | .ok data => parse data
  | .error error => .error (.file error)

end WordHart.Image
