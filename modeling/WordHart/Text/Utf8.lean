import WordHart.Text.Numeral

/-!
UTF-8 is read one byte at a time. The bounds of the second byte keep out overlong
forms, surrogates and code points past the last one. A fault names the position
of the first byte of the character that it spoils.
-/

namespace WordHart.Utf8

inductive Fault where
  /-- The `length` bytes from `index` on and the byte after them begin no character. -/
  | invalid (length index : Nat)
  /-- The input ends inside the character that begins at `index`. -/
  | incomplete (index : Nat)
  deriving DecidableEq

def Fault.text : Fault → String
  | invalid length index =>
      "invalid utf-8 sequence of " ++ Numeral.decimal length ++ " bytes from index " ++
        Numeral.decimal index
  | incomplete index => "incomplete utf-8 byte sequence from index " ++ Numeral.decimal index

/-- A character that has begun. -/
structure Begun where
  /-- How many bytes are still needed after the next one. -/
  further : Nat
  low : Nat
  high : Nat
  taken : Nat
  /-- The bits taken so far, as a number. -/
  bits : Nat
  deriving DecidableEq

/-- The character that a first byte above the ASCII range begins. -/
def Begun.ofLead? (byte : Nat) : Option Begun :=
  if byte < 0xc2 then none
  else if byte < 0xe0 then some ⟨0, 0x80, 0xbf, 1, byte - 0xc0⟩
  else if byte = 0xe0 then some ⟨1, 0xa0, 0xbf, 1, byte - 0xe0⟩
  else if byte = 0xed then some ⟨1, 0x80, 0x9f, 1, byte - 0xe0⟩
  else if byte < 0xf0 then some ⟨1, 0x80, 0xbf, 1, byte - 0xe0⟩
  else if byte = 0xf0 then some ⟨2, 0x90, 0xbf, 1, byte - 0xf0⟩
  else if byte < 0xf4 then some ⟨2, 0x80, 0xbf, 1, byte - 0xf0⟩
  else if byte = 0xf4 then some ⟨2, 0x80, 0x8f, 1, byte - 0xf0⟩
  else none

/-- Read characters from a byte string, the next character beginning at `index`. -/
def decodeFrom (index : Nat) : Option Begun → List UInt8 → Except Fault (List Char)
  | none, [] => .ok []
  | some _, [] => .error (.incomplete index)
  | none, byte :: rest =>
      if byte.toNat < 0x80 then (Char.ofNat byte.toNat :: ·) <$> decodeFrom (index + 1) none rest
      else
        match Begun.ofLead? byte.toNat with
        | some begun => decodeFrom index (some begun) rest
        | none => .error (.invalid 1 index)
  | some begun, byte :: rest =>
      if begun.low ≤ byte.toNat ∧ byte.toNat ≤ begun.high then
        let bits := 64 * begun.bits + (byte.toNat - 0x80)
        match begun.further with
        | 0 => (Char.ofNat bits :: ·) <$> decodeFrom (index + begun.taken + 1) none rest
        | further + 1 =>
            decodeFrom index (some ⟨further, 0x80, 0xbf, begun.taken + 1, bits⟩) rest
      else .error (.invalid begun.taken index)

def decode (data : List UInt8) : Except Fault String := String.ofList <$> decodeFrom 0 none data

def encode (text : String) : List UInt8 := text.toList.flatMap String.utf8EncodeChar

end WordHart.Utf8
