namespace WordHart.Numeral

/-- The digits of `n` in `base`, at least `width` of them. -/
def digits (base width n : Nat) : List Char := (Nat.toDigits base n).leftpad width '0'

def decimal (n : Nat) : String := String.ofList (Nat.toDigits 10 n)

def signed : Int → String
  | .ofNat n => decimal n
  | .negSucc n => "-" ++ decimal (n + 1)

def hex (width n : Nat) : String := "0x" ++ String.ofList (digits 16 width n)

def binary (width n : Nat) : String := "0b" ++ String.ofList (digits 2 width n)

/-- The bytes of a string, two lower-case hexadecimal digits each. -/
def hexBytes (data : List UInt8) : String :=
  String.ofList (data.flatMap fun byte => digits 16 2 byte.toNat)

def hexDigit? (c : Char) : Option Nat :=
  if '0' ≤ c ∧ c ≤ '9' then some (c.toNat - '0'.toNat)
  else if 'a' ≤ c ∧ c ≤ 'f' then some (c.toNat - 'a'.toNat + 10)
  else if 'A' ≤ c ∧ c ≤ 'F' then some (c.toNat - 'A'.toNat + 10)
  else none

def decimalDigit? (c : Char) : Option Nat :=
  if '0' ≤ c ∧ c ≤ '9' then some (c.toNat - '0'.toNat) else none

/-- The natural number that a string of decimal digits denotes; no digits denote none. -/
def natural? : List Char → Option Nat
  | [] => none
  | c :: rest => do
      let first ← decimalDigit? c
      rest.foldlM (fun total digit => (10 * total + ·) <$> decimalDigit? digit) first

end WordHart.Numeral
